import ImapProbe.Proofs.Session.Calls
import ImapProbe.Proofs.Storage.Writing

/-!
# What ends a visit early

A visit ends early with the first thing said before the leave that ends a session, and with nothing
else; what was written up to then stays, and nothing is written for the messages after it
(`visit_outcome`). What is said at the leave does not matter.
-/

namespace ImapProbe

/-- What was said went on to the end, or up to the first exchange that ends a session. -/
def Halts (xs : List Exchange) : Option SessionFault → Prop
  | none => ∀ x ∈ xs, x.fault? = none
  | some f => ∃ before x, xs = before ++ [x] ∧ (∀ y ∈ before, y.fault? = none) ∧ x.fault? = some f

namespace Halts

variable {xs ys : List Exchange} {fault : Option SessionFault}

theorem append (h : Halts xs none) (h' : Halts ys fault) : Halts (xs ++ ys) fault := by
  rcases fault with _ | f
  · exact fun x hx => (List.mem_append.1 hx).elim (h x) (h' x)
  · obtain ⟨before, x, rfl, hb, hx⟩ := h'
    exact ⟨xs ++ before, x, (List.append_assoc ..).symm,
      fun y hy => (List.mem_append.1 hy).elim (h y) (hb y), hx⟩

theorem one (x : Exchange) : Halts [x] x.fault? := by
  rcases hx : x.fault? with _ | f
  · exact List.forall_mem_singleton.2 hx
  · exact ⟨[], x, rfl, by simp, hx⟩

theorem cons {x : Exchange} (hx : x.fault? = none) (h : Halts ys fault) : Halts (x :: ys) fault :=
  (hx ▸ one x : Halts [x] none).append h

theorem findSome? (h : Halts xs fault) : xs.findSome? Exchange.fault? = fault := by
  rcases fault with _ | f
  · exact List.findSome?_eq_none_iff.2 h
  · obtain ⟨before, x, rfl, hb, hx⟩ := h
    simp [List.findSome?_append, List.findSome?_eq_none_iff.2 hb, hx]

end Halts

theorem Opened.halts {cs : List Command} {xs : List Exchange} {fault : Option SessionFault}
    (h : Opened cs xs fault) : Halts xs fault := by
  induction h with
  | all => exact fun _ hx => by simp at hx
  | stopped hs => exact hs ▸ .one _
  | next hn _ ih => exact ih.cons hn

variable {p : Profile} {corpus : List Path} {message : Path} {n : UInt32} {t t' : FileTree}
  {acts : List Act}

/-- A fault of the connection, in what is told of one message. -/
def ExaminationFault.connection? : Except ExaminationFault Unit → Option SessionFault
  | .error (.connection e) => some (.connectionLost e)
  | .error (.problem ..) | .ok () => none

/-- No refusal of a description, and no answer to it, ends a session. -/
theorem fault?_request (d : Description) (r : Response) :
    Exchange.fault? ⟨d.request n, .ok r⟩ = none := by
  simp [Exchange.fault?, Description.request]

theorem fault?_append (mailbox : String) (content : Bytes) (r : Response) :
    Exchange.fault? ⟨.append mailbox content, .ok r⟩ = none := by
  simp [Exchange.fault?]

theorem Described.halts {ds : List Description} {r : Except ExaminationFault Unit}
    (h : Described p message n ds t acts r t') :
    Halts (exchanges acts) (ExaminationFault.connection? r) := by
  induction h with
  | done => exact fun _ hx => by simp at hx
  | fault => exact .one _
  | @refused d _ _ r | @noData d _ _ r | @unwritten d _ _ r =>
    exact List.forall_mem_singleton.2 (fault?_request d r)
  | @written d _ _ _ _ r _ _ _ _ _ _ ih => exact ih.cons (fault?_request d r)

theorem Course.halts {r : Except ExaminationFault Unit} (h : Course p message n t acts r t') :
    Halts (exchanges acts) (ExaminationFault.connection? r) := by
  cases h with
  | unread => exact fun _ hx => by simp at hx
  | fault => exact .one _
  | refused => exact List.forall_mem_singleton.2 (fault?_append _ _ _)
  | accepted _ _ hd => exact hd.halts.cons (fault?_append _ _ _)

def errorOf? {ε α : Type} : Except ε α → Option ε
  | .error e => some e
  | .ok _ => none

theorem errorOf?_eq_some {ε α : Type} {r : Except ε α} {e : ε} :
    errorOf? r = some e ↔ r = .error e := by
  rcases r with e' | a <;> simp [errorOf?]

theorem Reviewed.halts {index described : Nat} {losses : Losses} {blocks : List (List Act)}
    {r : Except Fault (Nat × Losses)}
    (h : Reviewed p index described losses corpus t blocks r t') :
    Halts (exchanges blocks.flatten) ((errorOf? r).map .connectionLost) := by
  induction h with
  | done => exact fun _ hx => by simp at hx
  | cut hc =>
    rw [List.flatten_cons, List.flatten_nil, List.append_nil]
    exact hc.halts
  | lost hc _ ih | described hc _ ih =>
    rw [List.flatten_cons, exchanges_append]
    exact hc.halts.append ih

section Artifacts

open FileTree

theorem Described.written_chain {ds : List Description} {r : Except ExaminationFault Unit}
    (h : Described p message n ds t acts r t') : Written (writings acts) t t' := by
  induction h with
  | done | fault | refused | noData | unwritten => rfl
  | written _ _ hw _ ih => exact ⟨_, hw, ih⟩

theorem Course.written_chain {r : Except ExaminationFault Unit}
    (h : Course p message n t acts r t') : Written (writings acts) t t' := by
  cases h with
  | unread | fault | refused => rfl
  | accepted _ _ hd => exact hd.written_chain

theorem Reviewed.written_chain {index described : Nat} {losses : Losses}
    {blocks : List (List Act)} {r : Except Fault (Nat × Losses)}
    (h : Reviewed p index described losses corpus t blocks r t') :
    Written (writings blocks.flatten) t t' := by
  induction h with
  | done => rfl
  | cut hc =>
    rw [List.flatten_cons, List.flatten_nil, List.append_nil]
    exact hc.written_chain
  | lost hc _ ih | described hc _ ih =>
    rw [List.flatten_cons, writings_append]
    exact hc.written_chain.append ih

/-- What is written for a message is an artifact of an answer about it. -/
def Artifacts (p : Profile) (message : Path) (acts : List Act) : Prop :=
  ∀ w ∈ writings acts, ∃ (d : Description) (n : UInt32) (r : Response),
    w = (artifactFile message p.suffix d, artifact (r.parts "FETCH"))
      ∧ ⟨d.request n, .ok r⟩ ∈ exchanges acts

theorem Described.artifacts {ds : List Description} {r : Except ExaminationFault Unit}
    (h : Described p message n ds t acts r t') : Artifacts p message acts := by
  induction h with
  | done | fault | refused | noData | unwritten => exact fun w hw => by simp at hw
  | written _ _ _ _ ih =>
    refine List.forall_mem_cons.2 ⟨⟨_, n, _, rfl, List.mem_cons_self⟩, fun w hw => ?_⟩
    obtain ⟨d, n, r, rfl, hx⟩ := ih w hw
    exact ⟨d, n, r, rfl, List.mem_cons_of_mem _ hx⟩

theorem Course.artifacts {r : Except ExaminationFault Unit}
    (h : Course p message n t acts r t') : Artifacts p message acts := by
  cases h with
  | unread | fault | refused => exact fun w hw => by simp at hw
  | accepted _ _ hd =>
    intro w hw
    obtain ⟨d, n, r, rfl, hx⟩ := hd.artifacts w hw
    exact ⟨d, n, r, rfl, List.mem_cons_of_mem _ hx⟩

end Artifacts

section Sessions

variable {opening leave : List Exchange} {blocks : List (List Act)}
  {outcome : Except SessionFault Report}

theorem Conversed.halts (h : Conversed p corpus t opening blocks leave outcome t') :
    Halts (opening ++ exchanges blocks.flatten) (errorOf? outcome) := by
  cases h with
  | stopped _ ho =>
    rw [List.flatten_nil, exchanges_nil, List.append_nil]
    exact ho.halts
  | cut _ _ ho hr => exact ho.halts.append hr.halts
  | done _ _ ho hr => exact ho.halts.append hr.halts

theorem Conversed.written_chain (h : Conversed p corpus t opening blocks leave outcome t') :
    FileTree.Written (writings blocks.flatten) t t' := by
  cases h with
  | stopped => rfl
  | cut _ _ _ hr | done _ _ _ hr => exact hr.written_chain

theorem Conversed.artifacts (h : Conversed p corpus t opening blocks leave outcome t') :
    ∀ (i : Nat) (acts : List Act), blocks[i]? = some acts →
      ∃ message, corpus[i]? = some message ∧ Artifacts p message acts := by
  intro i acts hi
  obtain ⟨message, l, u, r, u', hm, -, hc⟩ := h.courses i acts hi
  exact ⟨message, hm, hc.artifacts⟩

end Sessions

section Visits

variable {ν σ : Type} (net : Network ν σ) (p : Profile) (corpus : List Path) (site : Site ν)

/-- A visit ends early without a connection, or with the first thing said before the leave that
ends a session, which is then the last thing said before the leave. The files hold what the
messages begun by then had written for them, last things last, and are otherwise as before. -/
theorem visit_outcome :
    let said := net.said p corpus site
    let v := visit net p corpus site
    (∀ e, (net.connect p site.files site.network).1 = .error e →
        v.1 = .error (.unreachable p.host p.port e) ∧ said = [] ∧ v.2.files = site.files)
      ∧ ((net.connect p site.files site.network).1.isOk →
        ∃ (opening : List Exchange) (blocks : List (List Act)) (leave : List Exchange),
        said = opening ++ exchanges blocks.flatten ++ leave
          ∧ (∀ x ∈ leave, x.command = .close ∨ x.command = .logout)
          ∧ (∀ x ∈ opening ++ exchanges blocks.flatten,
            x.command ≠ .close ∧ x.command ≠ .logout)
          ∧ (∀ f, v.1 = .error f
            ↔ (opening ++ exchanges blocks.flatten).findSome? Exchange.fault? = some f)
          ∧ (∀ f, v.1 = .error f → ∃ x,
            (opening ++ exchanges blocks.flatten).getLast? = some x ∧ x.fault? = some f)
          ∧ (∀ (i : Nat) (acts : List Act), blocks[i]? = some acts →
            ∃ message, corpus[i]? = some message ∧ Artifacts p message acts)
          ∧ (∀ w ∈ writings blocks.flatten, ∃ place, site.files.target? w.1 = some place)
          ∧ ∀ place, v.2.files.get? place
            = ((site.files.lastAt? place (writings blocks.flatten)).map .file).or
              (site.files.get? place)) := by
  intro said v
  rcases visit_conversed net p corpus site with ⟨e, he, hv, hf, hs⟩ |
    ⟨hok, opening, blocks, leave, hs, h⟩
  · refine ⟨fun e' he' => ?_, fun hok => ?_⟩
    · obtain rfl := Except.error.inj (he.symm.trans he')
      exact ⟨hv, hs, hf⟩
    · simp [he, Except.isOk, Except.toBool] at hok
  · refine ⟨fun e he => by simp [he, Except.isOk, Except.toBool] at hok, fun _ => ?_⟩
    have hh := h.halts
    refine ⟨opening, blocks, leave, hs, ?_, h.works, fun f => ?_, fun f hf => ?_, h.artifacts,
      h.written_chain.target?, h.written_chain.get?_eq⟩
    · obtain ⟨closing, bye, rfl, hclose, -⟩ := h.leaves
      intro x hx
      rcases List.mem_append.1 hx with hx | hx
      · exact .inl (hclose x hx)
      · exact .inr (by rw [List.mem_singleton.1 hx])
    · rw [hh.findSome?]
      exact errorOf?_eq_some.symm
    · rw [errorOf?_eq_some.2 hf] at hh
      obtain ⟨before, x, hx, -, hxf⟩ := hh
      exact ⟨x, by rw [hx, List.getLast?_concat], hxf⟩

variable {net} in
/-- A visit to a server that grants everything ends with a report. -/
theorem visit_granted (hgranted : ∀ c s, ∃ r, (net.responder.call c s).1 = .ok r ∧ r.isGranted)
    (hconnect : (net.connect p site.files site.network).1.isOk) :
    (visit net p corpus site).1.isOk := by
  rcases visit_conversed net p corpus site with ⟨e, he, -⟩ | ⟨-, opening, blocks, leave, hs, h⟩
  · simp [he, Except.isOk, Except.toBool] at hconnect
  have hh := h.halts
  rcases hv : (visit net p corpus site).1 with f | report
  · rw [hv] at hh
    obtain ⟨before, x, hx, -, hxf⟩ := hh
    have hsaid : x ∈ net.said p corpus site := by
      rw [hs, hx]
      simp
    obtain ⟨s, ha⟩ := said_answered net p corpus site x hsaid
    obtain ⟨r, hr, hgrant⟩ := hgranted x.command s
    simp [Exchange.fault?, ha, hr, hgrant] at hxf
  · rfl

end Visits

end ImapProbe
