import ImapProbe.Proofs.Session.Independence
import ImapProbe.Proofs.Sharing
import ImapProbe.Proofs.Storage.Following

/-!
# What becomes of the messages

A message of a corpus is a file of its directory. An artifact comes to lie over it where stem and
suffix come to the stem of the message and the description has the extension of the corpus
(`overlies_iff`), so in a corpus of another extension never (`extension_of_overlies`). A message
that no artifact comes to lie over is appended as it was and stays as it was (`visitAll_messages`).
Whatever is written, a disk is left as a disk (`visitAll_disk`).
-/

namespace ImapProbe

namespace FileTree

/-- No link lies in a directory. -/
def Unlinked (t : FileTree) (directory : Path) : Prop :=
  ∀ home, t.find .look directory.text = .ok (home, some .directory) →
    ∀ name target, t.get? (home ++ [name]) ≠ some (.link target)

/-- An artifact is written where a message is read. -/
def Overlies (t : FileTree) (suffix : String) (m' : Path) (d : Description) (m : Path) : Prop :=
  t.target? (artifactFile m' suffix d) = t.source? m

end FileTree

section Places

open FileTree

variable {t : FileTree} {directory : Path} {extension name name' s : String} {d : Description}
  {home : Place} {content : Bytes}

/-- A message of a directory is a file there, under its name. -/
structure Lies (t : FileTree) (directory : Path) (extension : String) (home : Place)
    (name : String) (content : Bytes) : Prop where
  message : IsMessage extension name
  leads : t.find .look directory.text = .ok (home, some .directory)
  stops : t.stopAt .look (directory.child name).text = .ok (home ++ [name], some [])
  holds : t.get? (home ++ [name]) = some (.file content)

theorem Lies.source? (h : Lies t directory extension home name content) :
    t.source? (directory.child name) = some (home ++ [name]) := by
  rw [FileTree.source?, ending_find, h.stops]
  rfl

theorem Lies.read (h : Lies t directory extension home name content) :
    t.read (directory.child name) = .ok content :=
  read_of_stops h.stops h.holds

theorem lies_of_isFile (hname : IsMessage extension name)
    (hleads : t.find .look directory.text = .ok (home, some .directory))
    (hlink : ∀ target, t.get? (home ++ [name]) ≠ some (.link target))
    (hfile : t.isFile (directory.child name)) :
    ∃ content, Lies t directory extension home name content := by
  obtain ⟨front, hfront, hlead⟩ := leads_directory hleads
  obtain ⟨place, content, hstop, hget⟩ := isFile_iff.1 hfile
  have hend : ending (t.find .look (directory.child name).text) = some place := by
    rw [ending_find, hstop]
    rfl
  rw [Path.child_text hname.isName hfront] at hend
  have hplace := hlead.ending_eq hname.isName (by simpa using hlink) hend
  rw [String.ofList_toList] at hplace
  rw [hplace] at hstop hget
  exact ⟨content, hname, hleads, hstop, hget⟩

/-- An artifact that is no link comes to lie over a message of its own extension only. -/
theorem extension_of_overlies (h : Lies t directory extension home name content)
    (h' : IsMessage extension name')
    (hown : ∀ target, t.own? (artifactFile (directory.child name') s d) ≠ some (.link target))
    (hover : t.Overlies s (directory.child name') d (directory.child name)) :
    d.extension = extension := by
  rw [Overlies, h.source?] at hover
  obtain ⟨front, hfront, -⟩ := leads_parent h.leads
  have hmem : '/' ∈ Path.slashed (Path.parent directory.text.toList)
      ++ artifactName (directory.child name') s d := by simp [hfront]
  obtain ⟨base, last, hlast, hslash⟩ := Path.exists_last hmem
  obtain ⟨stem, rfl⟩ := exists_extended hlast
  have hstem : '/' ∉ stem := fun hmem => hslash (List.mem_append_left _ hmem)
  rw [artifactFile_child h', hlast] at hown hover
  obtain ⟨home', -, hplace⟩ := target?_split (isName_extended hstem d) hown hover
  have hname := (List.append_inj' hplace rfl).2
  rw [List.cons.injEq] at hname
  have hlist : name.toList = stem ++ '.' :: d.extension.toList := by rw [hname.1]; simp
  exact String.toList_injective
    (Path.extension_eq h.message.extended hlist (dot_notMem_extension d)).2

/-- When an artifact of a suffix without slashes comes to lie over a message: it has its name. -/
theorem overlies_iff (h : Lies t directory extension home name content)
    (h' : IsMessage extension name') (hlink : ∀ name target,
      t.get? (home ++ [name]) ≠ some (.link target)) (hs : '/' ∉ s.toList) :
    t.Overlies s (directory.child name') d (directory.child name)
      ↔ d.extension = extension
        ∧ glued (directory.child name') s = (directory.child name).stem?.getD [] := by
  obtain ⟨front, hfront, hlead⟩ := leads_parent h.leads
  have hartifact : Path.IsName (artifactName (directory.child name') s d) :=
    isName_artifactName h' hs d
  have htext : artifactFile (directory.child name') s d
      = ⟨String.ofList (front ++ '/' :: artifactName (directory.child name') s d)⟩ := by
    rw [artifactFile_child h', hfront, List.append_assoc, List.singleton_append]
  rw [Overlies, h.source?, htext, Path.stem?_child h.message.isName, Option.getD_some,
    ← artifactName_eq_iff h.message.extended]
  constructor
  · intro htarget
    rw [target?] at htarget
    have hplace := hlead.ending_eq hartifact (hlink _) htarget
    have hname := List.append_cancel_left hplace
    rw [List.cons.injEq] at hname
    rw [hname.1]
    simp
  · intro hname
    obtain ⟨front', hfront', hlead'⟩ := leads_directory h.leads
    have hstop := h.stops
    rw [Path.child_text h.message.isName hfront'] at hstop
    have hwalk := walkable_of_stopAt hstop
    have hbeside := hwalk.beside hfront' hfront h.message.isName.2.1
    obtain ⟨links, hlook⟩ := hlead'.stopAt_name h.message.isName hwalk
    rw [hstop, String.ofList_toList] at hlook
    obtain ⟨links', hwrite⟩ := hlead.stopAt_name h.message.isName hbeside
    rw [String.ofList_toList] at hwrite
    have hone := h.message.isName.ofList
    rw [String.ofList_toList] at hone
    rw [← hname]
    exact @target?_of_stopAt _ ⟨String.ofList (front ++ '/' :: name.toList)⟩ _
      (hwrite.trans (stop_one_file hone hlook.symm h.holds links'))

/-- The messages of a corpus without links lie in its directory. -/
theorem corpus_lies {t : NamedTree} {messages : List Path}
    (hcorpus : corpus t directory extension = .ok messages) (hlinks : t.Unlinked directory) :
    ∃ home, (∀ name target, t.get? (home ++ [name]) ≠ some (.link target))
      ∧ ∀ m ∈ messages, ∃ name content, m = directory.child name
        ∧ Lies t directory extension home name content := by
  obtain ⟨home, hhome, hmessages⟩ := corpus_files hcorpus
  refine ⟨home, hlinks home hhome, fun m hm => ?_⟩
  obtain ⟨name, hname, rfl, hfile⟩ := hmessages m hm
  obtain ⟨content, hlies⟩ := lies_of_isFile hname hhome (hlinks home hhome name) hfile
  exact ⟨name, content, rfl, hlies⟩

end Places

section Uploads

open FileTree

variable {t u v : FileTree} {corpus : List Path} {p : Profile}

theorem Course.strewn {m : Path} {n : UInt32} {acts : List Act}
    {r : Except ExaminationFault Unit} (h : Course p m n u acts r v) (hm : m ∈ corpus)
    (hu : t.Strewn (ArtifactAt t corpus p) u) : t.Strewn (ArtifactAt t corpus p) v := by
  refine hu.trans (h.written_chain.strewn.mono ?_)
  rintro place ⟨w, hw, hplace⟩
  obtain ⟨d, n, r, rfl, -⟩ := h.artifacts w hw
  exact hu.sameWays.artifactAt_iff.1 ⟨m, hm, d, hplace⟩

theorem Course.appended {m : Path} {n : UInt32} {acts : List Act}
    {r : Except ExaminationFault Unit} (h : Course p m n u acts r v) :
    ∀ x ∈ exchanges acts, ∀ mailbox content, x.command = .append mailbox content →
      u.read m = .ok content := by
  intro x hx mailbox content hcommand
  cases h with
  | unread => simp at hx
  | fault hread | refused hread =>
    obtain rfl := List.mem_singleton.1 hx
    obtain ⟨-, rfl⟩ := Command.append.inj hcommand
    exact hread
  | accepted hread _ hd =>
    rcases List.mem_cons.1 hx with rfl | hx
    · obtain ⟨-, rfl⟩ := Command.append.inj hcommand
      exact hread
    · obtain ⟨d, hd⟩ := hd.requests x hx
      simp [hd, Description.request] at hcommand

/-- What is appended is read from a message, among artifacts of the profile. -/
theorem Reviewed.appended {index described : Nat} {losses : Losses} {rest : List Path}
    {blocks : List (List Act)} {r : Except Fault (Nat × Losses)}
    (h : Reviewed p index described losses rest u blocks r v) (hrest : ∀ m ∈ rest, m ∈ corpus)
    (hu : t.Strewn (ArtifactAt t corpus p) u) :
    ∀ x ∈ exchanges blocks.flatten, ∀ mailbox content, x.command = .append mailbox content →
      ∃ m ∈ corpus, ∃ left, t.Strewn (ArtifactAt t corpus p) left ∧ left.read m = .ok content := by
  induction h with
  | done => simp
  | cut hc =>
    rw [List.flatten_cons, List.flatten_nil, List.append_nil]
    exact fun x hx mailbox content hcommand =>
      ⟨_, hrest _ List.mem_cons_self, _, hu, hc.appended x hx mailbox content hcommand⟩
  | lost hc _ ih | described hc _ ih =>
    obtain ⟨hm, hrest⟩ := List.forall_mem_cons.1 hrest
    rw [List.flatten_cons, exchanges_append]
    intro x hx mailbox content hcommand
    rcases List.mem_append.1 hx with hx | hx
    · exact ⟨_, hm, _, hu, hc.appended x hx mailbox content hcommand⟩
    · exact ih hrest (hc.strewn hm hu) x hx mailbox content hcommand

theorem Conversed.appended {opening leave : List Exchange} {blocks : List (List Act)}
    {outcome : Except SessionFault Report}
    (h : Conversed p corpus t opening blocks leave outcome v) :
    ∀ x ∈ opening ++ exchanges blocks.flatten ++ leave, ∀ mailbox content,
      x.command = .append mailbox content →
      ∃ m ∈ corpus, ∃ left, t.Strewn (ArtifactAt t corpus p) left ∧ left.read m = .ok content := by
  intro x hx mailbox content hcommand
  rcases List.mem_append.1 hx with hbefore | hleave
  · rcases List.mem_append.1 hbefore with hopening | hblocks
    · have hasked := h.opening_mem x hopening
      rw [hcommand] at hasked
      simp [Profile.opening] at hasked
    · cases h with
      | stopped => simp at hblocks
      | cut _ _ _ hr | done _ _ _ hr =>
        exact hr.appended (fun _ hm => hm) (.refl _ _) x hblocks mailbox content hcommand
  · obtain ⟨closing, bye, rfl, hclose, -⟩ := h.leaves
    rcases List.mem_append.1 hleave with hclosing | hbye
    · simp [hclose x hclosing] at hcommand
    · simp [List.mem_singleton.1 hbye] at hcommand

theorem visit_appended {ν σ : Type} (net : Network ν σ) (site : Site ν) :
    ∀ x ∈ net.said p corpus site, ∀ mailbox content, x.command = .append mailbox content →
      ∃ m ∈ corpus, ∃ left, site.files.Strewn (ArtifactAt site.files corpus p) left
        ∧ left.read m = .ok content := by
  rcases visit_conversed net p corpus site with
    ⟨e, -, -, -, hs⟩ | ⟨-, opening, blocks, leave, hs, h⟩
  · simp [hs]
  · rw [hs]
    exact h.appended

end Uploads

section Visits

open FileTree

variable {ν σ : Type} (net : Network ν σ) {directory : Path} {extension : String}
  {messages : List Path}

/-- What becomes of the messages of a corpus without links, whatever servers are visited and
whatever they say: each reads as before, or as an artifact that came to lie over it; and when one
does. Where none does, what is appended is what the messages were, too. -/
theorem visitAll_messages {network : ν} {tree : NamedTree}
    (hcorpus : corpus tree directory extension = .ok messages)
    (hlinks : tree.Unlinked directory) (ps : List Profile) :
    let site : Site ν := ⟨network, tree⟩
    let after := (visitAll net messages ps site).2.files
    (∀ m ∈ messages, ∃ content, site.files.read m = .ok content
        ∧ (after.read m = .ok content
          ∨ ∃ p ∈ ps, ∃ m' ∈ messages, ∃ (d : Description) (r : Response),
            site.files.Overlies p.suffix m' d m
              ∧ after.read m = .ok (artifact (r.parts "FETCH"))))
      ∧ (∀ suffix, ∀ m ∈ messages, ∀ m' ∈ messages, ∀ d,
        ((∀ target, site.files.own? (artifactFile m' suffix d) ≠ some (.link target)) →
          site.files.Overlies suffix m' d m → d.extension = extension)
        ∧ ('/' ∉ suffix.toList → (site.files.Overlies suffix m' d m
          ↔ d.extension = extension ∧ glued m' suffix = m.stem?.getD [])))
      ∧ ((∀ p ∈ ps, ∀ m ∈ messages, ∀ m' ∈ messages, ∀ d,
          ¬site.files.Overlies p.suffix m' d m) →
        (∀ m ∈ messages, after.read m = site.files.read m)
          ∧ ∀ k p, ps[k]? = some p →
            ∀ x ∈ net.said p messages (visitAll net messages (ps.take k) site).2,
              ∀ mailbox content, x.command = .append mailbox content →
                ∃ m ∈ messages, site.files.read m = .ok content) := by
  intro site after
  obtain ⟨home, hlink, hlies⟩ := corpus_lies hcorpus hlinks
  refine ⟨fun m hm => ?_, fun suffix m hm m' hm' d => ?_, fun hclear => ?_⟩
  · obtain ⟨name, content, rfl, hfile⟩ := hlies m hm
    refine ⟨content, hfile.read, ?_⟩
    obtain ⟨ws, hws, hartifacts⟩ := visitAll_written net messages ps site
    have hafter : after.read (directory.child name) = _ := hws.read_of_stops hfile.stops hfile.holds
    rcases hlast : site.files.lastAt? (home ++ [name]) ws with _ | last <;> rw [hlast] at hafter
    · exact .inl hafter
    · obtain ⟨w, hw, hplace, rfl⟩ := exists_lastAt? hlast
      obtain ⟨p, hp, m', hm', d, r, rfl⟩ := hartifacts w hw
      exact .inr ⟨p, hp, m', hm', d, r, hplace.trans hfile.source?.symm, hafter⟩
  · obtain ⟨name, content, rfl, hfile⟩ := hlies m hm
    obtain ⟨name', content', rfl, hfile'⟩ := hlies m' hm'
    exact ⟨extension_of_overlies hfile hfile'.message, overlies_iff hfile hfile'.message hlink⟩
  · have hread : ∀ m ∈ messages, ∀ left,
        site.files.Strewn (fun place => ∃ p ∈ ps, ArtifactAt site.files messages p place) left →
        left.read m = site.files.read m := by
      intro m hm left hleft
      obtain ⟨name, content, rfl, hfile⟩ := hlies m hm
      refine (read_strewn hleft fun place hsource => ?_).resolve_right fun hbehind =>
        not_goesBehind hfile.stops hbehind.1
      rintro ⟨p, hp, m', hm', d, hplace⟩
      exact hclear p hp _ hm m' hm' d (hplace.trans hsource.symm)
    refine ⟨fun m hm => hread m hm _ (visitAll_strewn net messages ps site),
      fun k p hp x hx mailbox content hcommand => ?_⟩
    obtain ⟨m, hm, left, hleft, hcontent⟩ := visit_appended net _ x hx mailbox content hcommand
    have hbefore := visitAll_strewn net messages (ps.take k) site
    refine ⟨m, hm, (hread m hm left ?_).symm.trans hcontent⟩
    refine (hbefore.mono ?_).trans (hleft.mono ?_)
    · rintro place ⟨q, hq, hplace⟩
      exact ⟨q, List.mem_of_mem_take hq, hplace⟩
    · exact fun place hplace =>
        ⟨p, List.mem_of_getElem? hp, hbefore.sameWays.artifactAt_iff.1 hplace⟩

/-- What visits leave of a disk is a disk. -/
theorem visitAll_disk (network : ν) (t : Disk) (ps : List Profile) :
    ∃ after : Disk, after.toFileTree = (visitAll net messages ps ⟨network, t⟩).2.files := by
  obtain ⟨ws, hws, -⟩ := visitAll_written net messages ps ⟨network, t⟩
  exact Disk.exists_of_written hws

section Letters

/-- A letter stays what it is, as no artifact has its extension. -/
theorem visitAll_messages_letter :
    let net := Network.ofResponder granting none
    let letters : List Path := [⟨"./a.eml"⟩]
    corpus letterDisk ⟨"."⟩ "eml" = .ok letters ∧ letterDisk.Unlinked ⟨"."⟩
      ∧ (visitAll net letters [twoLetters.profile] oneLetter).2.files.read ⟨"./a.eml"⟩
        = .ok [97] := by
  intro net letters
  have hunlinked : letterDisk.Unlinked ⟨"."⟩ := fun _ _ _ => oneLetter_unlinked _
  refine ⟨oneLetter_corpus, hunlinked, ?_⟩
  obtain ⟨-, hover, hclear⟩ := @visitAll_messages _ _ net ⟨"."⟩ "eml" letters () letterDisk
    oneLetter_corpus hunlinked [twoLetters.profile]
  have hread : oneLetter.files.read ⟨"./a.eml"⟩ = .ok [97] :=
    read_of_stops (stopAt_beside (by rfl) (by decide) (.inr ⟨_, rfl⟩)) rfl
  refine ((hclear fun p _ m hm m' hm' d hlies => ?_).1 _ (List.mem_singleton.2 rfl)).trans hread
  have hext := (hover p.suffix m hm m' hm' d).1 (own?_ne_link oneLetter_unlinked _) hlies
  cases d <;> exact absurd hext (by decide)

/-- A letter with the extension of an artifact. -/
def describedName : Site Unit := ⟨(), ⟨[(["a.bodystructure"], .file [97])]⟩⟩

/-- A profile that does not label its artifacts. -/
def unlabelled : Profile := { twoLetters.profile with suffix := "" }

theorem describedName_stopAt {t : FileTree} {purpose : Purpose}
    (hfree : t.IsFree ["a.bodystructure"]) :
    t.stopAt purpose "./a.bodystructure" = .ok (["a.bodystructure"], some []) :=
  stopAt_beside (by rfl) (by decide) hfree

theorem describedName_corpus :
    corpus describedName.files ⟨"."⟩ "bodystructure" = .ok [⟨"./a.bodystructure"⟩] := by
  have hnames : describedName.files.namesIn [] = ["a.bodystructure"] := rfl
  exact corpus_here hnames (by decide) (describedName_stopAt (.inr ⟨_, rfl⟩)) rfl (by decide)

/-- In a corpus without links, a visit writes an artifact of a letter over the letter. -/
theorem letter_overwritten :
    let net := Network.ofResponder granting none
    (∀ place target, describedName.files.get? place ≠ some (.link target))
      ∧ corpus describedName.files ⟨"."⟩ "bodystructure" = .ok [⟨"./a.bodystructure"⟩]
      ∧ describedName.files.read ⟨"./a.bodystructure"⟩ = .ok [97]
      ∧ (visit net unlabelled [⟨"./a.bodystructure"⟩] describedName).2.files.read
          ⟨"./a.bodystructure"⟩ = .ok (utf8 "(X)")
      ∧ utf8 "(X)" ≠ [97] := by
  intro net
  have hread : describedName.files.read ⟨"./a.bodystructure"⟩ = .ok [97] :=
    read_of_stops (describedName_stopAt (.inr ⟨_, rfl⟩)) rfl
  refine ⟨get?_ne_link (List.forall_mem_singleton.2 (by simp)), describedName_corpus, hread, ?_,
    by decide⟩
  have hfiles : artifactFile ⟨"./a.bodystructure"⟩ unlabelled.suffix .body = ⟨"./a.body"⟩
      ∧ artifactFile ⟨"./a.bodystructure"⟩ unlabelled.suffix .bodyStructure
        = ⟨"./a.bodystructure"⟩ := by decide
  let left := describedName.files.set ["a.body"] (.file (utf8 "(X)"))
  let after := left.set ["a.bodystructure"] (.file (utf8 "(X)"))
  have hbody : describedName.files.write ⟨"./a.body"⟩ (utf8 "(X)") = .ok left :=
    write_of_stops (stopAt_beside (by rfl) (by decide) (.inl rfl))
  have hstructure : left.write ⟨"./a.bodystructure"⟩ (utf8 "(X)") = .ok after :=
    write_of_stops (describedName_stopAt (.inr ⟨[97], rfl⟩))
  rw [← hfiles.1] at hbody
  nth_rewrite 1 [← hfiles.2] at hstructure
  have hreview : Session.examineFrom granting unlabelled 0 0 {} [⟨"./a.bodystructure"⟩]
      ⟨(), describedName.files⟩ = (.ok (1, {}), ⟨(), after⟩) := by
    simp only [Session.examineFrom, examine_granting hread hbody hstructure]
    rfl
  have hget : after.get? ["a.bodystructure"] = some (.file (utf8 "(X)")) := by
    rw [get?_set (by decide), if_pos rfl]
  rw [visit_granting hreview]
  exact read_of_stops (describedName_stopAt (.inr ⟨_, hget⟩)) hget

end Letters

end Visits

end ImapProbe
