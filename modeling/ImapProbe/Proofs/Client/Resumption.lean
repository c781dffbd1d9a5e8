import ImapProbe.Proofs.Client.Turns
import ImapProbe.Proofs.Conservation

/-!
# Where a client goes on reading

A client takes messages from its assembler until that has none, and then feeds it what arrives
(`Assembled`); it does nothing else to it, in no command and on no failure (`call_resumes`). So
at any moment of its life the messages it took and those its assembler holds are what is framed in
the octets that arrived, and each of these octets was used once or waits for the next command
(`life_framed`).
-/

namespace ImapProbe

open Wire

/-- What deeds make of the assembler of a client. -/
inductive Assembled : Assembler → List Deed → Assembler → Prop
  | nil (a : Assembler) : Assembled a [] a
  | wrote {a a' : Assembler} {j : List Deed} (octets : Bytes) :
    Assembled a j a' → Assembled a (.wrote octets :: j) a'
  | flushed {a a' : Assembler} {j : List Deed} (octets : Bytes) :
    Assembled a j a' → Assembled a (.flushed octets :: j) a'
  | took {a a₁ a' : Assembler} {j : List Deed} {found : Except Malformation Message} :
    a.next = (some found, a₁) → Assembled a₁ j a' → Assembled a (.took found :: j) a'
  | pulled {a a₁ a' : Assembler} {j : List Deed} {found : Except Fault Bytes} :
    a.next = (none, a₁) → Assembled (a₁.feed (Journal.arrived [.pulled found])) j a' →
      Assembled a (.pulled found :: j) a'

/-- An assembler and what it became: the results it gave and those it holds are those of all its
octets, and its octets are those the results were made of and those it holds. -/
structure Accounts (a : Assembler) (j : List Deed) (held : Assembler) : Prop where
  results : (a.feed (Journal.arrived j)).results
    = (Journal.taken j ++ held.results.1, held.results.2)
  octets : ∃ used, MadeInTurn a.limit (Journal.taken j) used
    ∧ a.pending ++ Journal.arrived j = used ++ held.pending

namespace Assembled

variable {a a' : Assembler} {j j' : List Deed}

theorem trans {b : Assembler} (h : Assembled a j a') (h' : Assembled a' j' b) :
    Assembled a (j ++ j') b := by
  induction h with
  | nil => exact h'
  | wrote octets _ ih => exact .wrote octets (ih h')
  | flushed octets _ ih => exact .flushed octets (ih h')
  | took hn _ ih => exact .took hn (ih h')
  | pulled hn _ ih => exact .pulled hn (ih h')

/-- Between any two deeds there was an assembler. -/
theorem between :
    ∀ {a : Assembler} (j : List Deed), Assembled a (j ++ j') a' →
      ∃ b, Assembled a j b ∧ Assembled b j' a'
  | a, [], h => ⟨a, .nil a, h⟩
  | _, .wrote octets :: j, .wrote _ h =>
    have ⟨b, h₁, h₂⟩ := between j h
    ⟨b, .wrote octets h₁, h₂⟩
  | _, .flushed octets :: j, .flushed _ h =>
    have ⟨b, h₁, h₂⟩ := between j h
    ⟨b, .flushed octets h₁, h₂⟩
  | _, .took _ :: j, .took hn h =>
    have ⟨b, h₁, h₂⟩ := between j h
    ⟨b, .took hn h₁, h₂⟩
  | _, .pulled _ :: j, .pulled hn h =>
    have ⟨b, h₁, h₂⟩ := between j h
    ⟨b, .pulled hn h₁, h₂⟩

theorem accounts (h : Assembled a j a') : Accounts a j a' := by
  induction h with
  | nil a =>
    refine ⟨?_, [], .nil, List.append_nil _⟩
    rw [show Journal.arrived [] = [] from rfl, Assembler.feed_nil]
    rfl
  | wrote _ _ ih | flushed _ _ ih => exact ⟨ih.results, ih.octets⟩
  | @took a a₁ a' j found hn _ ih =>
    obtain ⟨hlimit, octets, hmade, ho⟩ := Assembler.pending_next hn
    obtain ⟨used, hused, heq⟩ := ih.octets
    refine ⟨?_, octets ++ used, .cons hmade (hlimit ▸ hused), ?_⟩
    · rw [Assembler.results_of_next (Assembler.next_feed hn _),
        show Journal.arrived (.took found :: j) = Journal.arrived j from rfl, ih.results]
      rfl
    · rw [show Journal.arrived (.took found :: j) = Journal.arrived j from rfl, ho,
        List.append_assoc, heq, List.append_assoc]
  | @pulled a a₁ a' j found hn _ ih =>
    obtain ⟨hlimit, ho⟩ := Assembler.pending_next_none hn
    obtain ⟨used, hused, heq⟩ := ih.octets
    have harrived : Journal.arrived (.pulled found :: j)
        = Journal.arrived [.pulled found] ++ Journal.arrived j := Journal.arrived_append [_] j
    refine ⟨?_, used, hlimit ▸ hused, ?_⟩
    · rw [Assembler.results_congr (Assembler.next_feed_none hn _), harrived, ← Assembler.feed_feed,
        ih.results]
      rfl
    · rw [harrived, ← heq, Assembler.pending_feed, ho, List.append_assoc]

end Assembled

namespace Client

/-- The later client goes on from where the earlier one stopped. -/
def Resumes (c c' : Client) : Prop :=
  ∃ j, c'.journal = c.journal ++ j ∧ Assembled c.assembler j c'.assembler

theorem Resumes.refl (c : Client) : Resumes c c := ⟨[], (List.append_nil _).symm, .nil _⟩

theorem Resumes.trans {c c₁ c₂ : Client} : Resumes c c₁ → Resumes c₁ c₂ → Resumes c c₂
  | ⟨j, hj, h⟩, ⟨j', hj', h'⟩ => ⟨j ++ j', by rw [hj', hj, List.append_assoc], h.trans h'⟩

theorem write_resumes (octets : Bytes) (c : Client) : Resumes c (c.write octets) :=
  ⟨[.wrote octets], rfl, .wrote octets (.nil _)⟩

theorem flush_resumes (c : Client) : Resumes c c.flush.2 :=
  ⟨[.flushed _], rfl, .flushed _ (.nil _)⟩

theorem nextMessage_resumes (c : Client) : Resumes c c.nextMessage.2 := by
  fun_induction nextMessage c with
  | case1 c m a ha | case2 c e a ha => exact ⟨[.took _], rfl, .took ha (.nil _)⟩
  | case3 c a ha e k hk =>
    refine ⟨[.pulled (.error e)], rfl, .pulled ha ?_⟩
    rw [show Journal.arrived [.pulled (.error e)] = [] from rfl, Assembler.feed_nil]
    exact .nil a
  | case4 c a ha octets k hk ih =>
    refine Resumes.trans ⟨[.pulled (.ok octets)], rfl, .pulled ha ?_⟩ ih
    rw [show Journal.arrived [.pulled (.ok octets)] = octets from List.append_nil octets]
    exact .nil _

theorem nextReading_resumes (c : Client) : Resumes c c.nextReading.2 := by
  have h := nextMessage_resumes c
  unfold nextReading
  split <;> rename_i hm <;> rwa [hm] at h

theorem gather_resumes (leaving : Bool) (data : List ServerData) (c : Client) :
    Resumes c (gather leaving data c).2 := by
  fun_induction gather leaving data c with
  | case1 data c e c₁ hn | case2 data c c₁ hn | case3 data c tag completion c₁ hn
  | case4 data c d c₁ hn hbye => simpa only [hn] using nextReading_resumes c
  | case5 data c d c₁ hn hbye ih =>
    have h := nextReading_resumes c
    rw [hn] at h
    exact h.trans ih

theorem carryOut_resumes (tag : String) (leaving : Bool) (fragments : List Fragment)
    (data : List ServerData) (c : Client) :
    Resumes c (carryOut tag leaving fragments data c).2 := by
  fun_induction carryOut tag leaving fragments data c with
  | case1 data c e c₁ hf | case6 octets rest data c e c₁ hf =>
    simpa only [hf] using flush_resumes c
  | case2 data c c₁ hf e c₂ hg | case7 octets rest data c c₁ hf e c₂ hg
  | case3 data c c₁ hf data' c₂ hg
  | case4 data c c₁ hf data' got completion c₂ hg
  | case9 octets rest data c c₁ hf data' got completion c₂ hg =>
    have h := flush_resumes c
    have h' := gather_resumes leaving data c₁
    rw [hf] at h
    rw [hg] at h'
    exact h.trans h'
  | case5 octets rest data c ih => exact (write_resumes octets c).trans ih
  | case8 octets rest data c c₁ hf data' c₂ hg ih =>
    have h := flush_resumes c
    have h' := gather_resumes leaving data c₁
    rw [hf] at h
    rw [hg] at h'
    exact (h.trans h').trans ((write_resumes octets c₂).trans ih)

theorem call_resumes (command : Command) (c : Client) : Resumes c (c.call command).2 := by
  unfold call
  split
  · exact .refl c
  · exact carryOut_resumes _ _ _ _ { c with issued := c.issued + 1 }

theorem turns_resume :
    ∀ (commands : List Command) (c : Client), ∀ t ∈ turns commands c,
      Resumes c t.after ∧ Accounts t.before.assembler t.deeds t.after.assembler
  | [], c => by simp [turns]
  | command :: rest, c => by
    rcases h : c.call command with ⟨r, c₁⟩
    have hcall : Resumes c c₁ := by simpa only [h] using call_resumes command c
    rw [turns, h]
    rintro t (_ | ⟨_, ht⟩)
    · obtain ⟨j, hj, ha⟩ := hcall
      exact ⟨⟨j, hj, ha⟩, by simpa [Turn.deeds, hj] using ha.accounts⟩
    · obtain ⟨hrest, ha⟩ := turns_resume rest c₁ t ht
      exact ⟨hcall.trans hrest, ha⟩

/-- Over the whole life of a client, from the read of the greeting on and through commands that
failed, what it took from its assembler and what the assembler holds is framed in what arrived, and
no octet of it is lost, used twice or moved; a command goes on with what the one before it left. -/
theorem life_framed (script : List Event) (timeout : Duration) (budget : Option Nat)
    (commands : List Command) :
    let k : Connection := { script, timeout, budget }
    let c₀ := (start k).nextMessage.2
    (∀ c k', greet k = (.ok c, k') → c = c₀)
      ∧ (∀ c ∈ c₀ :: (turns commands c₀).map Turn.after,
        arriving script = Journal.arrived c.journal ++ arriving c.connection.script
          ∧ Accounts (Assembler.idle greatestMessage {}) c.journal c.assembler
          ∧ ∀ j, j <+: c.journal → ∃ held, Accounts (Assembler.idle greatestMessage {}) j held)
      ∧ ∀ t ∈ turns commands c₀, Accounts t.before.assembler t.deeds t.after.assembler := by
  intro k c₀
  have hreached : Reached k c₀ := nextMessage_reached rfl rfl
  have hturns := turns_resume commands c₀
  have hgreet : ∀ c k', greet k = (.ok c, k') → c = c₀ := fun c k' h => by
    obtain ⟨m, hm⟩ := greet_ok h
    exact (congrArg Prod.snd hm).symm
  refine ⟨hgreet, ?_, fun t ht => (hturns t ht).2⟩
  have hlife : ∀ c, Reached k c → Resumes (start k) c →
      arriving script = Journal.arrived c.journal ++ arriving c.connection.script
        ∧ Accounts (Assembler.idle greatestMessage {}) c.journal c.assembler
        ∧ ∀ j, j <+: c.journal → ∃ held, Accounts (Assembler.idle greatestMessage {}) j held := by
    rintro c hc ⟨j, hj, h⟩
    obtain rfl : c.journal = j := hj
    refine ⟨hc.did.script, h.accounts, ?_⟩
    rintro j ⟨j', hj'⟩
    obtain ⟨held, hheld, -⟩ := Assembled.between j (hj' ▸ h)
    exact ⟨held, hheld.accounts⟩
  have hstart : Resumes (start k) c₀ := nextMessage_resumes (start k)
  simp only [List.forall_mem_cons, List.forall_mem_map]
  refine ⟨hlife c₀ hreached hstart, fun t ht => ?_⟩
  obtain ⟨hb, hcall⟩ := (turns_reached commands c₀ hreached).1 t ht
  exact hlife t.after (hb.call hcall).1 (hstart.trans (hturns t ht).1)

end Client

end ImapProbe
