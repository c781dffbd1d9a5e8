import ImapProbe.Proofs.Session.Conversation

/-!
# The answers decide

What passes about a message and in a session is decided by the files and the answers alone: two
sessions over one corpus that get the same answers are one and the same (`Conversed.unique`). For a
part of a session this holds whatever is answered after it.
-/

namespace ImapProbe

/-- What was answered, in order. -/
def answers (xs : List Exchange) : List (Except Fault Response) := xs.map (·.answer)

@[simp] theorem answers_nil : answers [] = [] := rfl

@[simp] theorem answers_cons (x : Exchange) (xs : List Exchange) :
    answers (x :: xs) = x.answer :: answers xs := rfl

@[simp] theorem answers_append (xs xs' : List Exchange) :
    answers (xs ++ xs') = answers xs ++ answers xs' := List.map_append

theorem answers_blocks (acts : List Act) (blocks : List (List Act))
    (ys : List (Except Fault Response)) :
    answers (exchanges (acts :: blocks).flatten) ++ ys
      = answers (exchanges acts) ++ (answers (exchanges blocks.flatten) ++ ys) := by
  simp

variable {p : Profile} {corpus : List Path} {t t' t'' : FileTree} {message : Path} {n : UInt32}
  {ys ys' : List (Except Fault Response)}

theorem Described.unique {ds : List Description} {acts acts' : List Act}
    {r r' : Except ExaminationFault Unit} (h : Described p message n ds t acts r t')
    (h' : Described p message n ds t acts' r' t'')
    (ha : answers (exchanges acts) ++ ys = answers (exchanges acts') ++ ys') :
    acts = acts' ∧ r = r' ∧ t' = t'' := by
  induction h generalizing acts' with
  | done => cases h'; simp
  | fault => cases h' <;> simp_all
  | refused hg => cases h' <;> simp_all
  | noData hg hp => cases h' <;> simp_all
  | unwritten hg hp hw => cases h' <;> simp_all
  | written hg hp hw _ ih =>
    cases h' with
    | written _ _ hw' hd' =>
      simp only [exchanges_asked, exchanges_wrote, answers_cons, List.cons_append,
        List.cons.injEq, Except.ok.injEq] at ha
      obtain ⟨rfl, ha⟩ := ha
      obtain rfl := Except.ok.inj (hw.symm.trans hw')
      simpa using ih hd' ha
    | _ => simp_all

theorem Course.unique {acts acts' : List Act} {r r' : Except ExaminationFault Unit}
    (h : Course p message n t acts r t') (h' : Course p message n t acts' r' t'')
    (ha : answers (exchanges acts) ++ ys = answers (exchanges acts') ++ ys') :
    acts = acts' ∧ r = r' ∧ t' = t'' := by
  cases h with
  | unread => cases h' <;> simp_all
  | fault => cases h' <;> simp_all
  | refused => cases h' <;> simp_all
  | accepted hread _ hd =>
    cases h' with
    | accepted hread' _ hd' =>
      obtain rfl := Except.ok.inj (hread.symm.trans hread')
      simp only [exchanges_asked, answers_cons, List.cons_append, List.cons.injEq,
        Except.ok.injEq] at ha
      obtain ⟨rfl, ha⟩ := ha
      simpa using hd.unique hd' ha
    | _ => simp_all

theorem Reviewed.unique {index described : Nat} {losses : Losses} {blocks blocks' : List (List Act)}
    {r r' : Except Fault (Nat × Losses)}
    (h : Reviewed p index described losses corpus t blocks r t')
    (h' : Reviewed p index described losses corpus t blocks' r' t'')
    (ha : answers (exchanges blocks.flatten) ++ ys = answers (exchanges blocks'.flatten) ++ ys') :
    blocks = blocks' ∧ r = r' ∧ t' = t'' := by
  induction h generalizing blocks' with
  | done => cases h'; simp
  | cut hc =>
    cases h' with
    | cut hc' | lost hc' | described hc' =>
      rw [answers_blocks, answers_blocks] at ha
      simpa using hc.unique hc' ha
  | lost hc _ ih =>
    cases h' with
    | lost hc' hr' =>
      rw [answers_blocks, answers_blocks] at ha
      obtain ⟨rfl, hr, rfl⟩ := hc.unique hc' ha
      simp only [Except.error.injEq, ExaminationFault.problem.injEq] at hr
      obtain ⟨rfl, rfl⟩ := hr
      simpa using ih hr' (List.append_cancel_left ha)
    | cut hc' | described hc' =>
      rw [answers_blocks, answers_blocks] at ha
      simpa using (hc.unique hc' ha).2.1
  | described hc _ ih =>
    cases h' with
    | described hc' hr' =>
      rw [answers_blocks, answers_blocks] at ha
      obtain ⟨rfl, -, rfl⟩ := hc.unique hc' ha
      simpa using ih hr' (List.append_cancel_left ha)
    | cut hc' | lost hc' =>
      rw [answers_blocks, answers_blocks] at ha
      simpa using (hc.unique hc' ha).2.1

theorem Opened.unique {cs : List Command} {xs xs' : List Exchange}
    {fault fault' : Option SessionFault} (h : Opened cs xs fault) (h' : Opened cs xs' fault')
    (ha : answers xs ++ ys = answers xs' ++ ys') : xs = xs' ∧ fault = fault' := by
  induction h generalizing xs' with
  | all => cases h'; simp
  | stopped => cases h' <;> simp_all
  | next _ _ ih =>
    cases h' with
    | stopped => simp_all
    | next _ ho' =>
      simp only [answers_cons, List.cons_append, List.cons.injEq] at ha
      obtain ⟨rfl, ha⟩ := ha
      simpa using ih ho' ha

/-- Two sessions that get the same answers are the same. -/
theorem Conversed.unique {opening opening' leave leave' : List Exchange}
    {blocks blocks' : List (List Act)} {r r' : Except SessionFault Report}
    (h : Conversed p corpus t opening blocks leave r t')
    (h' : Conversed p corpus t opening' blocks' leave' r' t'')
    (ha : answers (opening ++ exchanges blocks.flatten ++ leave)
      = answers (opening' ++ exchanges blocks'.flatten ++ leave')) :
    opening = opening' ∧ blocks = blocks' ∧ leave = leave' ∧ r = r' ∧ t' = t'' := by
  simp only [answers_append, List.append_assoc] at ha
  cases h with
  | stopped _ ho =>
    cases h' with
    | stopped _ ho' =>
      obtain ⟨rfl, hf⟩ := ho.unique ho' ha
      simp_all
    | cut _ _ ho' | done _ _ ho' => simpa using (ho.unique ho' ha).2
  | cut _ _ ho hr | done _ _ ho hr =>
    cases h' with
    | stopped _ ho' => simpa using (ho.unique ho' ha).2
    | cut _ _ ho' hr' | done _ _ ho' hr' =>
      obtain ⟨rfl, -⟩ := ho.unique ho' ha
      have ha := List.append_cancel_left ha
      obtain ⟨rfl, hf, rfl⟩ := hr.unique hr' ha
      simp_all

end ImapProbe
