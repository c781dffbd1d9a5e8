import ImapProbe.Mbox.Import
import ImapProbe.Proofs.Session.Course

/-!
# What an import asks

An import asks for the login, the mailbox, the messages one after another and the logout, and
nothing besides. It breaks off behind the first exchange that ends it, and it is told what that one
was or how many messages were accepted (`importAll_said`).
-/

namespace ImapProbe.Mbox

/-- What an exchange ends an import with: the refusal of the login or of the mailbox, or a fault of
the connection, unless it comes at the logout. -/
def fault? (x : Exchange) : Option ImportFault :=
  match x.command, x.answer with
  | .logout, _ => none
  | .login .., .ok r => if r.isGranted then none else some (.loginRefused r.completion)
  | .select mailbox, .ok r =>
    if r.isGranted then none else some (.mailboxRefused mailbox r.completion)
  | _, .ok _ => none
  | _, .error e => some (.connection e)

/-- A message is accepted. -/
def accepts (x : Exchange) : Bool :=
  match x.command, x.answer with
  | .append .., .ok r => r.isGranted
  | _, _ => false

/-- All that an import asks for. -/
def script (user password mailbox : String) (messages : List Bytes) : List Command :=
  .login user password :: .select mailbox :: (messages.map (.append mailbox) ++ [.logout])

/-- What comes of exchanges: the first fault, or else the number of messages that were accepted,
with those from before. -/
def outcome (accepted : Nat) (xs : List Exchange) : Except ImportFault Nat :=
  match xs.findSome? fault? with
  | some f => .error f
  | none => .ok (accepted + xs.countP accepts)

/-- Commands were given in order, each once, up to the first exchange that ends an import. -/
structure Carried (cs : List Command) (xs : List Exchange) : Prop where
  in_order : xs.map (·.command) <+: cs
  unbroken : ∀ x ∈ xs.dropLast, fault? x = none
  complete : xs.findSome? fault? = none → xs.map (·.command) = cs

section Exchanges

variable {c : Command} {cs : List Command} {answer : Except Fault Response} {xs : List Exchange}
  {f : ImportFault}

theorem Carried.nil : Carried [] [] := ⟨List.prefix_rfl, by simp, fun _ => rfl⟩

theorem Carried.stop (h : fault? ⟨c, answer⟩ = some f) (cs : List Command) :
    Carried (c :: cs) [⟨c, answer⟩] :=
  ⟨⟨cs, rfl⟩, by simp, by simp [h]⟩

theorem Carried.cons (h : fault? ⟨c, answer⟩ = none) (hxs : Carried cs xs) :
    Carried (c :: cs) (⟨c, answer⟩ :: xs) where
  in_order := (List.prefix_cons_inj c).2 hxs.in_order
  unbroken := by
    rcases xs with _ | ⟨x, xs⟩
    · simp
    · rw [List.dropLast_cons_cons]
      exact List.forall_mem_cons.2 ⟨h, hxs.unbroken⟩
  complete hnone := by
    rw [List.findSome?_cons, h] at hnone
    exact congrArg (c :: ·) (hxs.complete hnone)

/-- What broke off is as good as whole before more commands. -/
theorem Carried.more (hxs : Carried cs xs) (h : xs.findSome? fault? = some f) (cs' : List Command) :
    Carried (cs ++ cs') xs where
  in_order := hxs.in_order.trans (List.prefix_append ..)
  unbroken := hxs.unbroken
  complete hnone := by simp [h] at hnone

/-- What went on to the end goes on with the logout. -/
theorem Carried.logout (hxs : Carried cs xs) (h : xs.findSome? fault? = none)
    (answer : Except Fault Response) : Carried (cs ++ [.logout]) (xs ++ [⟨.logout, answer⟩]) where
  in_order := by rw [List.map_append, hxs.complete h]; exact List.prefix_rfl
  unbroken := by
    rw [List.dropLast_concat]
    exact List.findSome?_eq_none_iff.1 h
  complete _ := by rw [List.map_append, hxs.complete h]; rfl

theorem outcome_stop (h : fault? ⟨c, answer⟩ = some f) (accepted : Nat) :
    outcome accepted [⟨c, answer⟩] = .error f := by
  simp [outcome, h]

theorem outcome_cons (h : fault? ⟨c, answer⟩ = none) (accepted : Nat) :
    outcome accepted (⟨c, answer⟩ :: xs)
      = outcome (if accepts ⟨c, answer⟩ then accepted + 1 else accepted) xs := by
  rw [outcome, outcome, List.findSome?_cons, h, List.countP_cons]
  rcases xs.findSome? fault? with _ | f
  · rcases accepts ⟨c, answer⟩
    · rfl
    · simp only [if_true, Except.ok.injEq]
      omega
  · rfl

theorem outcome_logout (xs : List Exchange) (accepted : Nat) :
    outcome accepted (xs ++ [⟨.logout, answer⟩]) = outcome accepted xs := by
  have hfault : fault? ⟨.logout, answer⟩ = none := by simp [fault?]
  have haccepts : accepts ⟨.logout, answer⟩ = false := by simp [accepts]
  simp [outcome, List.findSome?_append, hfault, haccepts]

end Exchanges

section Imports

variable {σ : Type}

/-- A run carries commands and comes to what was said, and so does the same run when what is said is
kept behind a log. -/
def Runs (cs : List Command) (accepted : Nat) (log : List Exchange)
    (plain : Except ImportFault Nat × σ) (kept : Except ImportFault Nat × σ × List Exchange) :
    Prop :=
  ∃ xs state, plain = (outcome accepted xs, state)
    ∧ kept = (outcome accepted xs, state, log ++ xs) ∧ Carried cs xs

section Runs

variable {c : Command} {cs : List Command} {answer : Except Fault Response} {accepted : Nat}
  {log : List Exchange} {f : ImportFault} {plain : Except ImportFault Nat × σ}
  {kept : Except ImportFault Nat × σ × List Exchange}

theorem Runs.stop (h : fault? ⟨c, answer⟩ = some f) (state : σ) :
    Runs (c :: cs) accepted log (.error f, state) (.error f, state, log ++ [⟨c, answer⟩]) :=
  ⟨_, state, by rw [outcome_stop h], by rw [outcome_stop h], .stop h cs⟩

theorem Runs.next (h : fault? ⟨c, answer⟩ = none)
    (hrest : Runs cs (if accepts ⟨c, answer⟩ then accepted + 1 else accepted)
      (log ++ [⟨c, answer⟩]) plain kept) : Runs (c :: cs) accepted log plain kept := by
  obtain ⟨xs, state, rfl, rfl, hxs⟩ := hrest
  refine ⟨⟨c, answer⟩ :: xs, state, by rw [outcome_cons h], ?_, hxs.cons h⟩
  rw [outcome_cons h, List.append_cons log _ xs]

theorem Runs.pass (h : fault? ⟨c, answer⟩ = none) (ha : accepts ⟨c, answer⟩ = false)
    (hrest : Runs cs accepted (log ++ [⟨c, answer⟩]) plain kept) :
    Runs (c :: cs) accepted log plain kept :=
  .next h (by rwa [ha])

end Runs

variable (via : Responder σ) (user password mailbox : String)

/-- The messages are appended one after another, whatever came of those before, up to a fault. -/
theorem appendAll_runs : ∀ (messages : List Bytes) (accepted : Nat) (s : σ) (log : List Exchange),
    Runs (messages.map (.append mailbox)) accepted log
      (appendAll via mailbox accepted messages s)
      (appendAll via.keepingExchanges mailbox accepted messages (s, log))
  | [], accepted, s, log => ⟨[], s, rfl, by simp [appendAll, outcome], .nil⟩
  | message :: rest, accepted, s, log => by
    simp only [appendAll, Responder.call_keepingExchanges, List.map_cons]
    rcases via.call (.append mailbox message) s with ⟨e | r, s'⟩
    · exact .stop (f := .connection e) rfl s'
    · have hf : fault? ⟨.append mailbox message, .ok r⟩ = none := rfl
      exact .next hf (appendAll_runs rest _ s' _)

/-- The logout comes behind the messages, if no fault did. -/
theorem importAll_runs (messages : List Bytes) (s : σ) :
    Runs (script user password mailbox messages) 0 []
      (importAll via user password mailbox messages s)
      (importAll via.keepingExchanges user password mailbox messages (s, [])) := by
  simp only [importAll, Responder.call_keepingExchanges, script]
  rcases via.call (.login user password) s with ⟨e | login, s₁⟩ <;> simp only
  · exact .stop (f := .connection e) rfl s₁
  rcases hlogin : login.isGranted <;> simp only [Bool.not_false, Bool.not_true, if_true,
    Bool.false_eq_true, if_false]
  · exact .stop (by simp [fault?, hlogin]) s₁
  have hl : fault? ⟨.login user password, .ok login⟩ = none := by simp [fault?, hlogin]
  refine .pass hl rfl ?_
  rcases via.call (.select mailbox) s₁ with ⟨e | select, s₂⟩ <;> simp only
  · exact .stop (f := .connection e) rfl s₂
  rcases hselect : select.isGranted <;> simp only [Bool.not_false, Bool.not_true, if_true,
    Bool.false_eq_true, if_false]
  · exact .stop (by simp [fault?, hselect]) s₂
  have hs : fault? ⟨.select mailbox, .ok select⟩ = none := by simp [fault?, hselect]
  refine .pass hs rfl ?_
  obtain ⟨xs, s₃, hplain, hkept, hxs⟩ := appendAll_runs via mailbox messages 0 s₂
    ([] ++ [⟨.login user password, .ok login⟩] ++ [⟨.select mailbox, .ok select⟩])
  rw [hplain, hkept]
  rcases h : xs.findSome? fault? with _ | f
  · have hout : outcome 0 xs = .ok (0 + xs.countP accepts) := by rw [outcome, h]
    refine ⟨xs ++ [⟨.logout, (via.call .logout s₃).1⟩], (via.call .logout s₃).2, ?_, ?_,
      hxs.logout h _⟩
    · rw [outcome_logout, hout]
    · rw [outcome_logout, hout, ← List.append_assoc]
  · have hout : outcome 0 xs = .error f := by rw [outcome, h]
    refine ⟨xs, s₃, ?_, ?_, hxs.more h _⟩ <;> rw [hout]

/-- An import asks for the login, then the mailbox, then each message in order, whatever came of
those before it, and at last the logout; behind the refusal of the login or of the mailbox, or a
fault before the logout, it asks nothing more and ends with that; otherwise it asks for all and ends
with the number of messages that were accepted, whatever the logout came to. -/
theorem importAll_said (messages : List Bytes) (s : σ) :
    let run := importAll via.keepingExchanges user password mailbox messages (s, [])
    importAll via user password mailbox messages s = (run.1, run.2.1)
      ∧ Carried (script user password mailbox messages) run.2.2
      ∧ run.1 = outcome 0 run.2.2 := by
  obtain ⟨xs, state, hplain, hkept, hxs⟩ := importAll_runs via user password mailbox messages s
  simp only [hplain, hkept, List.nil_append]
  exact ⟨trivial, hxs, trivial⟩

/-- The refused message is not counted, and the logout that fails changes nothing. -/
example :
    let answer status : Except Fault Response := .ok ⟨⟨status, "done"⟩, []⟩
    let answers := [answer .ok, answer .ok, answer .ok, answer .no, answer .ok, .error .closed]
    (importAll Responder.ofAnswers "u" "p" "INBOX" [[97], [98], [99]] answers).1 = .ok 2 := rfl

end Imports

end ImapProbe.Mbox
