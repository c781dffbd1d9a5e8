import ImapProbe.Proofs.Episode
import ImapProbe.Proofs.Storage.Writing

/-!
# The numbers of messages

The number a message is fetched under is its ordinal less the failures recorded before it. Every
message before it was either accepted or recorded with a failure, and only those that were both
make a difference: the number is that of the last accepted message less their count. So the
answers are about the message itself as long as there are none, and about an earlier one after
the first (`fetches_numbered`).
-/

namespace ImapProbe

def failureCount (es : List Episode) : Nat := (es.flatMap (·.losses)).length

def grantedAppends (es : List Episode) : Nat :=
  (es.flatMap (·.exchanges)).countP Exchange.deposits

/-- How many messages were accepted and recorded with a failure all the same. -/
def lostDeposits (es : List Episode) : Nat := es.countP fun e => e.deposited && e.isLoss

/-- The place in the corpus of the message with a number, to a server that numbers the messages it
has accepted 1, 2, 3 and so on. -/
def numbered (es : List Episode) : Nat → Option Nat
  | 0 => none
  | n + 1 => (es.filter (·.deposited))[n]?.map (·.index)

/-- The 32 bits of the prediction hold the ordinal, and nothing is cut off. -/
theorem toNat_predict {l : Losses} {index : Nat} (hi : index + 1 < UInt32.size)
    (hl : l.failures.length ≤ index) :
    (l.predict index).toNat + l.failures.length = index + 1 := by
  have hord : (UInt32.ofNat index + 1).toNat = index + 1 := by
    rw [UInt32.toNat_add, UInt32.toNat_ofNat_of_lt' (by omega)]
    simpa using hi
  have hfail : (UInt32.ofNat l.failures.length).toNat = l.failures.length :=
    UInt32.toNat_ofNat_of_lt' (by omega)
  have hle : UInt32.ofNat l.failures.length ≤ UInt32.ofNat index + 1 := by
    rw [UInt32.le_iff_toNat_le, hord, hfail]
    omega
  simp only [Losses.predict, if_pos hle]
  rw [UInt32.toNat_sub_of_le _ _ hle, hord, hfail]
  omega

theorem grantedAppends_append (es es' : List Episode) :
    grantedAppends (es ++ es') = grantedAppends es + grantedAppends es' := by
  simp [grantedAppends]

theorem grantedAppends_eq {p : Profile} :
    ∀ {es : List Episode}, (∀ e ∈ es, ∃ n, e.Orderly p n) →
      grantedAppends es = (es.filter (·.deposited)).length
  | [], _ => rfl
  | e :: es, h => by
    obtain ⟨⟨n, he⟩, hes⟩ := List.forall_mem_cons.1 h
    rw [← List.singleton_append, grantedAppends_append, grantedAppends_eq hes,
      show grantedAppends [e] = e.exchanges.countP Exchange.deposits by simp [grantedAppends],
      he.deposits, List.filter_append, List.length_append]
    split <;> simp [*]

theorem failureCount_cons (e : Episode) (es : List Episode) :
    failureCount (e :: es) = e.losses.length + failureCount es := by
  simp only [failureCount, List.flatMap_cons, List.length_append]

theorem lostDeposits_cons (e : Episode) (es : List Episode) :
    lostDeposits (e :: es) = lostDeposits es + if e.deposited && e.isLoss then 1 else 0 :=
  List.countP_cons

/-- Of finished messages, those that were accepted and those that were recorded are as many as
all of them and those that were both: a lost message counts once on each side, and once more on
each if it was accepted too. -/
theorem length_add_lostDeposits :
    ∀ {es : List Episode}, (∀ e ∈ es, e.Finished) →
      es.length + lostDeposits es = failureCount es + (es.filter (·.deposited)).length
  | [], _ => rfl
  | e :: es, h => by
    obtain ⟨he, hes⟩ := List.forall_mem_cons.1 h
    have ih := length_add_lostDeposits hes
    rw [List.length_cons, failureCount_cons, lostDeposits_cons, List.filter_cons]
    rcases he with hl | ⟨hd, hl⟩
    · have hloss : e.isLoss = true := by
        unfold Episode.isLoss
        rcases hls : e.losses
        · rw [hls] at hl
          simp at hl
        · rfl
      rw [hl, hloss]
      rcases e.deposited <;> simp <;> omega
    · simp only [Episode.isLoss, hd, hl, List.isEmpty_nil, List.length_nil, List.length_cons,
        Bool.not_true, Bool.and_false, Bool.false_eq_true, ↓reduceIte]
      omega

theorem lostDeposits_le (es : List Episode) :
    lostDeposits es ≤ (es.filter (·.deposited)).length := by
  rw [← List.countP_eq_length_filter]
  exact List.countP_mono_left fun e _ h => by simp_all

/-- The episodes of a run from the start of a corpus: each at the place of its message, faithful to
the losses before it, and after finished ones. -/
def Chronicle (p : Profile) (corpus : List Path) (es : List Episode) : Prop :=
  ∀ (i : Nat) (e : Episode), es[i]? = some e → e.index = i ∧ corpus[i]? = some e.message
    ∧ (∀ x ∈ es.take i, x.Finished)
    ∧ ∃ outcome, e.Faithful p (Losses.predict ⟨(es.take i).flatMap (·.losses)⟩ i) outcome

theorem chronicle_episodes {σ : Type} (via : Responder σ) (p : Profile) (corpus : List Path)
    (desk : Desk (σ × List Exchange)) : Chronicle p corpus (episodes via p 0 {} corpus desk) := by
  intro i e he
  have h := episodes_faithful via p corpus 0 {} desk i e he
  simpa only [Nat.zero_add, List.nil_append] using h

namespace Chronicle

variable {p : Profile} {corpus : List Path} {es : List Episode} {i : Nat} {e : Episode}

theorem take_succ (h : es[i]? = some e) : es.take (i + 1) = es.take i ++ [e] := by
  rw [List.take_add_one, h]
  rfl

theorem orderly (hc : Chronicle p corpus es) {x : Episode} (hx : x ∈ es) : ∃ n, x.Orderly p n := by
  obtain ⟨k, hk⟩ := List.mem_iff_getElem?.1 hx
  obtain ⟨-, -, -, outcome, hf⟩ := hc k x hk
  exact ⟨_, hf.toOrderly⟩

theorem grantedAppends_take (hc : Chronicle p corpus es) (h : es[i]? = some e)
    (hd : e.deposited = true) :
    grantedAppends (es.take (i + 1)) = ((es.take i).filter (·.deposited)).length + 1 := by
  rw [grantedAppends_eq fun x hx => hc.orderly (List.mem_of_mem_take hx), take_succ h,
    List.filter_append, List.filter_cons_of_pos hd, List.length_append]
  rfl

/-- The last accepted message has the greatest number, and a smaller number is that of an earlier
message. -/
theorem numbered_take (hc : Chronicle p corpus es) (h : es[i]? = some e)
    (hd : e.deposited = true) {n m : Nat} (hm : m ≤ ((es.take i).filter (·.deposited)).length)
    (hn : n + m = ((es.take i).filter (·.deposited)).length + 1) :
    ∃ j, numbered (es.take (i + 1)) n = some j ∧ (j = i ↔ m = 0) := by
  obtain ⟨n, rfl⟩ : ∃ k, n = k + 1 := ⟨n - 1, by omega⟩
  have hfilter : (es.take (i + 1)).filter (·.deposited)
      = (es.take i).filter (·.deposited) ++ [e] := by
    rw [take_succ h, List.filter_append, List.filter_cons_of_pos hd, List.filter_nil]
  simp only [numbered, hfilter]
  by_cases hm0 : m = 0
  · rw [List.getElem?_append_right (by omega), show n - _ = 0 by omega]
    exact ⟨i, by simp [(hc i e h).1], by simp [hm0]⟩
  · rw [List.getElem?_append_left (by omega)]
    obtain ⟨x, hx⟩ : ∃ x, ((es.take i).filter (·.deposited))[n]? = some x :=
      ⟨_, List.getElem?_eq_getElem (by omega)⟩
    have hmem := (List.mem_filter.1 (List.mem_of_getElem? hx)).1
    obtain ⟨k, hk⟩ := List.mem_iff_getElem?.1 hmem
    obtain ⟨hki, hk⟩ : k < i ∧ es[k]? = some x := by
      rw [List.getElem?_take] at hk
      split at hk
      · exact ⟨by assumption, hk⟩
      · simp at hk
    refine ⟨k, by rw [hx, Option.map_some, (hc k x hk).1], ?_⟩
    omega

theorem number_of_fetch (hc : Chronicle p corpus es) (hlen : corpus.length < UInt32.size - 1)
    (h : es[i]? = some e) {x : Exchange} (hx : x ∈ e.exchanges) {set items : String}
    (hfetch : x.command = .fetch set items) :
    ∃ n : Nat, (∃ d : Description, x.command = .fetch (onlyNumber n) d.items)
      ∧ n + failureCount (es.take i) = i + 1
      ∧ n + lostDeposits (es.take i) = grantedAppends (es.take (i + 1))
      ∧ (∃ answers, Stored p e.message answers e.before e.after
        ∧ ∀ a ∈ answers, ⟨.fetch (onlyNumber n) a.1.items, .ok a.2⟩ ∈ e.exchanges)
      ∧ 1 ≤ n ∧ ∃ j, numbered (es.take (i + 1)) n = some j
        ∧ (j = i ↔ lostDeposits (es.take i) = 0) := by
  obtain ⟨-, hmessage, hfin, outcome, hf⟩ := hc i e h
  obtain ⟨hd, d, hreq⟩ := hf.fetches x hx set items hfetch
  have hi : i < corpus.length := (List.getElem?_eq_some_iff.1 hmessage).1
  have hies : i < es.length := (List.getElem?_eq_some_iff.1 h).1
  have hcount := length_add_lostDeposits hfin
  have hle := lostDeposits_le (es.take i)
  rw [List.length_take, Nat.min_eq_left (Nat.le_of_lt hies)] at hcount
  have hn : (Losses.predict ⟨(es.take i).flatMap (·.losses)⟩ i).toNat + failureCount (es.take i)
      = i + 1 := toNat_predict (by omega) (show failureCount (es.take i) ≤ i by omega)
  have hgranted := hc.grantedAppends_take h hd
  exact ⟨_, ⟨d, hreq⟩, hn, by omega, hf.stored, by omega, hc.numbered_take h hd hle (by omega)⟩

end Chronicle

/-- In a run over a corpus, whatever the server answers: a message is fetched under its ordinal
less the failures recorded before it, which no arithmetic on 32 bits falsifies; that is the count
of granted APPENDs, its own included, less the accepted messages before it that were recorded with
a failure; and the artifacts are made of the answers about the message that a counting server
gives that number, which is the message itself exactly when there are no such messages. -/
theorem fetches_numbered {σ : Type} (via : Responder σ) (s : Session (σ × List Exchange))
    (corpus : List Path) (hlen : corpus.length < UInt32.size - 1) :
    let es := episodes via s.profile 0 {} corpus s.toDesk
    let run := s.examineAll via.keepingExchanges corpus
    run.2.server.2 = s.server.2 ++ es.flatMap (·.exchanges)
      ∧ (∀ report, run.1 = .ok report → report.failures = es.flatMap (·.losses))
      ∧ ∀ i e, es[i]? = some e → e.index = i ∧ corpus[i]? = some e.message
        ∧ ∀ x ∈ e.exchanges, ∀ set items, x.command = .fetch set items →
          ∃ n : Nat, (∃ d : Description, x.command = .fetch (onlyNumber n) d.items)
            ∧ n + failureCount (es.take i) = i + 1 ∧ 1 ≤ n ∧ n ≤ i + 1
            ∧ n + lostDeposits (es.take i) = grantedAppends (es.take (i + 1))
            ∧ (∃ answers, Stored s.profile e.message answers e.before e.after
              ∧ ∀ a ∈ answers, ⟨.fetch (onlyNumber n) a.1.items, .ok a.2⟩ ∈ e.exchanges)
            ∧ ∃ j, numbered (es.take (i + 1)) n = some j
              ∧ (j = i ↔ lostDeposits (es.take i) = 0) := by
  intro es run
  obtain ⟨hlog, hloss⟩ := examineFrom_episodes via s.profile corpus 0 0 {} s.toDesk
  have hc : Chronicle s.profile corpus es := chronicle_episodes via s.profile corpus s.toDesk
  refine ⟨?_, ?_, fun i e he => ?_⟩
  · simp only [run, Session.examineAll]
    split <;> rename_i hr <;> rw [hr] at hlog <;> exact hlog
  · intro report h
    simp only [run, Session.examineAll] at h
    split at h <;> rename_i hr <;> simp only [reduceCtorEq, Except.ok.injEq] at h
    subst h
    simpa using hloss _ _ (by rw [hr])
  · obtain ⟨hindex, hmessage, -⟩ := hc i e he
    refine ⟨hindex, hmessage, fun x hx set items hfetch => ?_⟩
    obtain ⟨n, hreq, hn, hcount, hst, hpos, hj⟩ := hc.number_of_fetch hlen he hx hfetch
    exact ⟨n, hreq, hn, hpos, by omega, hcount, hst, hj⟩

section Shifted

def refusingFetches : Responder Unit where
  call
    | .fetch .., s => (.ok ⟨⟨.no, "no"⟩, []⟩, s)
    | _, s => (.ok ⟨⟨.ok, "done"⟩, []⟩, s)

def twoLetters : Session (Unit × List Exchange) where
  server := ((), [])
  files := ⟨[(["a.eml"], .file [97]), (["b.eml"], .file [98])]⟩
  profile := ⟨"fake", .plain, "localhost", 143, "test", "pass", "scratch", ".fake"⟩
  selected := true

theorem examine_refusingFetches {p : Profile} {m : Path} {l : Losses} {i : Nat} {t : FileTree}
    {log : List Exchange} {content : Bytes} (h : t.read m = .ok content) :
    examine refusingFetches.keepingExchanges p i m l ⟨((), log), t⟩
      = (.ok false,
        l.add ⟨m, i, .fetch .body, (Problem.refused ⟨.no, "no"⟩).text (.fetch .body)⟩,
        ⟨((), log ++ [⟨.append p.mailbox content, .ok ⟨⟨.ok, "done"⟩, []⟩⟩]
          ++ [⟨Description.body.request (l.predict i), .ok ⟨⟨.no, "no"⟩, []⟩⟩]), t⟩) := by
  simp only [examine, attempt, h]
  rfl

/-- The second of two letters is fetched under the number of the first once the first is lost. -/
theorem fetches_numbered_twoLetters :
    let corpus : List Path := [⟨"a.eml"⟩, ⟨"b.eml"⟩]
    let es := episodes refusingFetches twoLetters.profile 0 {} corpus twoLetters.toDesk
    corpus.length < UInt32.size - 1 ∧ ∃ e, es[1]? = some e ∧ ∃ x ∈ e.exchanges,
      x.command = .fetch (onlyNumber 1) "(BODY)" ∧ grantedAppends (es.take 2) = 2
        ∧ ∃ j, numbered (es.take 2) 1 = some j ∧ j ≠ 1 := by
  intro corpus es
  have hlen : corpus.length < UInt32.size - 1 := by decide
  obtain ⟨-, -, h⟩ := fetches_numbered refusingFetches twoLetters corpus hlen
  have ha : twoLetters.files.read ⟨"a.eml"⟩ = .ok [97] :=
    FileTree.read_of_get (by decide) (by rfl) rfl
  have hb : twoLetters.files.read ⟨"b.eml"⟩ = .ok [98] :=
    FileTree.read_of_get (by decide) (by rfl) rfl
  have hes : ∃ e₀ e₁, es = [e₀, e₁] ∧ e₀.deposited = true ∧ e₀.losses.length = 1
      ∧ ∃ x ∈ e₁.exchanges, x.command = .fetch (onlyNumber 1) "(BODY)" := by
    simp only [es, corpus, episodes, twoLetters] at ha hb ⊢
    simp only [examine_refusingFetches ha, examine_refusingFetches hb]
    exact ⟨_, _, rfl, rfl, rfl, _, .tail _ (.head _), rfl⟩
  obtain ⟨e₀, e₁, hes, hd, hl, x, hx, hfetch⟩ := hes
  have he : es[1]? = some e₁ := by rw [hes]; rfl
  obtain ⟨n, -, hn, -, -, hcount, -, j, hj, hji⟩ := (h 1 e₁ he).2.2 x hx _ _ hfetch
  have hloss : e₀.isLoss = true := by
    unfold Episode.isLoss
    rcases hls : e₀.losses <;> simp_all
  have htake : es.take 1 = [e₀] := by rw [hes]; rfl
  rw [htake] at hn hcount hji
  rw [failureCount_cons, hl, show failureCount [] = 0 from rfl] at hn
  simp only [lostDeposits, List.countP_cons, hd, hloss, List.countP_nil] at hcount hji
  obtain rfl : n = 1 := by omega
  exact ⟨hlen, e₁, he, x, hx, hfetch, hcount.symm, j, hj, by simpa using hji⟩

end Shifted

end ImapProbe
