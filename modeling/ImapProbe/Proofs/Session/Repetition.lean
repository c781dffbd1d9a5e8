import ImapProbe.Proofs.Session.Independence

/-!
# Visits made again

Where no artifact of a profile is a message, a visit reads nothing that it wrote. Made again among
the files it left, it says the same and leaves these files as they are, whatever failed in it; and
it ends the same, but for the reason of a failure whose path goes on behind one of its artifacts
(`visit_repeated`).
-/

namespace ImapProbe

variable {ν σ : Type} (net : Network ν σ) {corpus : List Path} {p : Profile}

/-- A visit made again says the same, fails alike and changes nothing: it writes the same among
files that hold it already. -/
theorem visit_repeated {site site' : Site ν}
    (hapart : ∀ m ∈ corpus, ∀ place, site.files.source? m = some place →
      ¬ArtifactAt site.files corpus p place)
    (hfiles : site'.files = (visit net p corpus site).2.files)
    (hserver : (net.connect p site'.files site'.network).1
      = (net.connect p site.files site.network).1) :
    let places := ArtifactAt site.files corpus p
    let first := visit net p corpus site
    let second := visit net p corpus site'
    net.said p corpus site' = net.said p corpus site
      ∧ OutcomeAlike places site.files corpus p first.1 second.1
      ∧ ((∀ m step, ¬Barred places site.files corpus p m step) → second.1 = first.1)
      ∧ second.2.files = first.2.files := by
  intro places first second
  have hleft : site.files.Strewn places site'.files := by
    rw [hfiles]
    exact visit_strewn net corpus p site
  obtain ⟨hsaid, hout, -, ws, hfirst, hsecond⟩ := visit_alongside net hapart hleft hserver
  refine ⟨hsaid, hout, hout.eq, ?_⟩
  calc second.2.files = site'.files.setAll ws := hsecond
    _ = (site.files.setAll ws).setAll ws := by rw [hfiles, hfirst]
    _ = site.files.setAll ws := FileTree.setAll_setAll site.files ws
    _ = first.2.files := hfirst.symm

section Letters

open FileTree

/-- A message that would be found behind an artifact of the other. -/
def shelved : List Path := [⟨"a.fake.body/b.eml"⟩, ⟨"a.eml"⟩]

theorem artifactAt_shelved {place : Place}
    (h : ArtifactAt oneLetter.files shelved twoLetters.profile place) :
    some ["a.fake.body"] = some place ∨ some ["a.fake.bodystructure"] = some place := by
  obtain ⟨m, hm, d, hd⟩ := h
  rcases List.mem_pair.1 hm with rfl | rfl
  · have hfile : artifactFile ⟨"a.fake.body/b.eml"⟩ twoLetters.profile.suffix .body
        = ⟨"a.fake.body/b.fake.body"⟩
      ∧ artifactFile ⟨"a.fake.body/b.eml"⟩ twoLetters.profile.suffix .bodyStructure
        = ⟨"a.fake.body/b.fake.bodystructure"⟩ := by decide
    have hnone : ∀ {path : Path} {name : String}, oneLetter.files.stopAt .write path.text
        = oneLetter.files.stop .write greatestLinks [] ["a.fake.body", name] → name ≠ "" →
        oneLetter.files.target? path = none := fun hpath hname =>
      target?_of_stopAt (stopAt_behind hpath hname (.inl rfl))
    cases d
    · rw [hfile.1, @hnone ⟨"a.fake.body/b.fake.body"⟩ "b.fake.body" (by rfl) (by decide)] at hd
      cases hd
    · rw [hfile.2, @hnone ⟨"a.fake.body/b.fake.bodystructure"⟩ "b.fake.bodystructure" (by rfl)
        (by decide)] at hd
      cases hd
  · exact (oneLetter_fake place).1 ⟨_, List.mem_singleton.2 rfl, d, hd⟩

theorem shelved_apart : ∀ m ∈ shelved, ∀ place, oneLetter.files.source? m = some place →
    ¬ArtifactAt oneLetter.files shelved twoLetters.profile place := by
  have hbehind : oneLetter.files.stopAt .look "a.fake.body/b.eml"
      = .ok (["a.fake.body"], some ["b.eml"]) := stopAt_behind (by rfl) (by decide) (.inl rfl)
  refine List.forall_mem_cons.2 ⟨fun place hplace => ?_, List.forall_mem_singleton.2
    fun place hplace hat => ?_⟩
  · rw [source?, ending_find, hbehind] at hplace
    cases hplace
  · rw [oneLetter_source] at hplace
    rcases artifactAt_shelved hat with h | h <;> simp [← h] at hplace

/-- The letter is described again as it was, and the message behind its artifact is lost again. -/
theorem visit_repeated_shelved :
    let net := Network.ofResponder granting none
    let first := visit net twoLetters.profile shelved oneLetter
    let second := visit net twoLetters.profile shelved first.2
    net.said twoLetters.profile shelved first.2 = net.said twoLetters.profile shelved oneLetter
      ∧ second.2.files = first.2.files := by
  intro net first second
  obtain ⟨hsaid, -, -, hfiles⟩ := @visit_repeated _ _ net shelved _ oneLetter first.2
    shelved_apart rfl rfl
  exact ⟨hsaid, hfiles⟩

theorem read_behind {t : FileTree} {path : Path} {name : String}
    (h : t.stopAt .look path.text = .ok (["a.fake.body"], some [name])) :
    t.read path
      = .error (if (t.get? ["a.fake.body"]).isNone then .noSuchFile else .notDirectory) := by
  rcases hn : (t.get? ["a.fake.body"]).isNone <;>
    simp [FileTree.read, find_eq, h, Except.bind, arrive, hn]

theorem examine_describedLetter (i : Nat) (l : Losses) :
    examine granting twoLetters.profile i ⟨"a.eml"⟩ l ⟨(), describedLetter⟩
      = (.ok true, l, ⟨(), describedLetter⟩) := by
  have hread : describedLetter.read ⟨"a.eml"⟩ = .ok [97] :=
    read_of_get (by decide) (by rfl) rfl
  have hbody : describedLetter.write ⟨"a.fake.body"⟩ (utf8 "(X)") = .ok describedLetter :=
    write_of_stops (@stopAt_name _ _ "a.fake.body" "a.fake.body" (by rfl) (by decide)
      (.inr ⟨utf8 "(X)", by rfl⟩))
  have hstructure : describedLetter.write ⟨"a.fake.bodystructure"⟩ (utf8 "(X)")
      = .ok describedLetter :=
    write_of_stops (@stopAt_name _ _ "a.fake.bodystructure" "a.fake.bodystructure" (by rfl)
      (by decide) (.inr ⟨utf8 "(X)", by rfl⟩))
  rw [← twoLetters_artifacts.1] at hbody
  rw [← twoLetters_artifacts.2] at hstructure
  exact examine_granting hread hbody hstructure

theorem visit_shelved {t u : FileTree} {e : IoFault}
    (hread : t.read ⟨"a.fake.body/b.eml"⟩ = .error e)
    (hletter : ∀ i l, examine granting twoLetters.profile i ⟨"a.eml"⟩ l ⟨(), t⟩
      = (.ok true, l, ⟨(), u⟩)) :
    visit (.ofResponder granting none) twoLetters.profile shelved ⟨(), t⟩
      = (.ok ⟨"fake", 2, 1, [⟨⟨"a.fake.body/b.eml"⟩, 0, .read, (Problem.io e).text .read⟩]⟩,
        ⟨(), u⟩) := by
  have hlost : examine granting twoLetters.profile 0 ⟨"a.fake.body/b.eml"⟩ {} ⟨(), t⟩
      = (.ok false, ⟨[⟨⟨"a.fake.body/b.eml"⟩, 0, .read, (Problem.io e).text .read⟩]⟩, ⟨(), t⟩) := by
    simp [examine, attempt, hread, Losses.add]
  have hreview : Session.examineFrom granting twoLetters.profile 0 0 {} shelved ⟨(), t⟩
      = (.ok (1, ⟨[⟨⟨"a.fake.body/b.eml"⟩, 0, .read, (Problem.io e).text .read⟩]⟩), ⟨(), u⟩) := by
    simp only [shelved, Session.examineFrom, hlost, hletter]
    rfl
  rw [visit_granting hreview]
  rfl

/-- Made again, a visit gives another reason for the message that it looks for behind its own
artifact. -/
theorem visit_unlike_repeated :
    let net := Network.ofResponder granting none
    let told (e : IoFault) : Report := ⟨"fake", 2, 1,
      [⟨⟨"a.fake.body/b.eml"⟩, 0, .read, (Problem.io e).text .read⟩]⟩
    let first := visit net twoLetters.profile shelved oneLetter
    (∀ p files network, (net.connect p files network).1 = .ok ())
      ∧ (∀ m ∈ shelved, ∀ place, oneLetter.files.source? m = some place →
        ¬ArtifactAt oneLetter.files shelved twoLetters.profile place)
      ∧ first.1 = .ok (told .noSuchFile)
      ∧ (visit net twoLetters.profile shelved first.2).1 = .ok (told .notDirectory)
      ∧ told .notDirectory ≠ told .noSuchFile := by
  intro net told first
  have hbefore : oneLetter.files.read ⟨"a.fake.body/b.eml"⟩ = .error .noSuchFile :=
    read_behind (stopAt_behind (by rfl) (by decide) (.inl rfl))
  have hafter : describedLetter.read ⟨"a.fake.body/b.eml"⟩ = .error .notDirectory :=
    read_behind (stopAt_behind (by rfl) (by decide) (.inr ⟨utf8 "(X)", by rfl⟩))
  have hfirst : first = (.ok (told .noSuchFile), ⟨(), describedLetter⟩) :=
    visit_shelved hbefore examine_oneLetter
  have hsecond := visit_shelved hafter examine_describedLetter
  refine ⟨fun _ _ _ => rfl, shelved_apart, by rw [hfirst], ?_, by decide⟩
  rw [hfirst, hsecond]

end Letters

end ImapProbe
