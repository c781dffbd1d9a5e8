import ImapProbe.Storage.FileTree

/-!
# Where paths stop

A walk passes directories and links, and stops at the first place with nothing or a file. Which
place that is depends on the directories and the links alone (`stop_congr`). What comes of the path
depends besides on what is at that place and on the names that are left (`walk_eq`).
-/

namespace ImapProbe.FileTree

variable {t u v : FileTree} {q : Place}

/-- Nothing, or a file, which are the places where a file can be written. -/
def IsFree (t : FileTree) (place : Place) : Prop :=
  t.get? place = none ∨ ∃ content, t.get? place = some (.file content)

theorem IsFree.not_given (h : t.IsFree q) : isGiven q = false := by
  rcases hg : isGiven q
  · rfl
  · rcases h with h | ⟨content, h⟩ <;> simp [get?, hg] at h

theorem get?_ne_link (h : ∀ e ∈ t.entries, ∀ target, e.2 ≠ .link target) (place : Place)
    (target : String) : t.get? place ≠ some (.link target) := by
  unfold get?
  split
  · simp
  · intro hlink
    obtain ⟨l₁, l₂, hentries, -⟩ := List.lookup_eq_some_iff.1 hlink
    exact h _ (hentries ▸ List.mem_append_right _ List.mem_cons_self) target rfl

/-- Two trees have the same directories and links. -/
def SameWays (t u : FileTree) : Prop := ∀ q, u.get? q = t.get? q ∨ t.IsFree q ∧ u.IsFree q

theorem SameWays.isFree (h : t.SameWays u) (hq : t.IsFree q) : u.IsFree q := by
  rcases h q with hu | ⟨-, hu⟩
  · simpa only [IsFree, hu] using hq
  · exact hu

theorem SameWays.refl (t : FileTree) : t.SameWays t := fun _ => .inl rfl

theorem SameWays.symm (h : t.SameWays u) : u.SameWays t := fun q =>
  (h q).imp Eq.symm And.symm

theorem SameWays.trans (h : t.SameWays u) (h' : u.SameWays v) : t.SameWays v := fun q => by
  rcases h q with hu | ⟨ht, hu⟩
  · rcases h' q with hv | ⟨hfree, hv⟩
    · exact .inl (hv.trans hu)
    · exact .inr ⟨by simpa only [IsFree, hu] using hfree, hv⟩
  · exact .inr ⟨ht, h'.isFree hu⟩

theorem SameWays.get? {entry : Entry} (h : t.SameWays u) (hq : t.get? q = some entry)
    (he : ∀ content, entry ≠ .file content) : u.get? q = some entry := by
  rcases h q with hu | ⟨ht | ⟨content, ht⟩, -⟩
  · rw [hu, hq]
  · simp [ht] at hq
  · exact absurd (Option.some.inj (hq.symm.trans ht)) (he content)

/-- Where a walk stops, with the names behind a place that is free, or in a directory. -/
def stop (t : FileTree) (purpose : Purpose) (links : Nat) (here : Place) :
    List String → Except IoFault (Place × Option (List String))
  | [] => .ok (here, none)
  | name :: rest =>
    if name = "" ∨ name = "." then stop t purpose links here rest
    else if name = ".." then stop t purpose links (up here) rest
    else if purpose = .write ∧ rest ≠ [] ∧ rest.all (· == "") then .error .isDirectory
    else if greatestName < (utf8 name).length then .error .nameTooLong
    else
      let place := here ++ [name]
      match t.get? place with
      | none => .ok (place, some rest)
      | some (.file _) => .ok (place, some rest)
      | some .directory => stop t purpose links place rest
      | some (.link target) =>
        match links with
        | 0 => .error .tooManyLinks
        | links + 1 => stop t purpose links (start here target) (names target ++ rest)
termination_by names => (links, names.length)

/-- What is found where a walk stops. -/
def arrive (t : FileTree) : Place × Option (List String) → Except IoFault (Place × Option Entry)
  | (place, none) => .ok (place, some .directory)
  | (place, some rest) =>
    if rest.isEmpty then .ok (place, t.get? place)
    else if (t.get? place).isNone then .error .noSuchFile
    else .error .notDirectory

section Walks

variable {purpose : Purpose} {links : Nat} {here : Place} {name : String} {names rest : List String}

theorem stop_eq_of_free (h1 : ¬(name = "" ∨ name = ".")) (h2 : name ≠ "..")
    (h3 : ¬(purpose = .write ∧ rest ≠ [] ∧ rest.all (· == "")))
    (h4 : ¬greatestName < (utf8 name).length) (hq : t.IsFree (here ++ [name])) :
    t.stop purpose links here (name :: rest) = .ok (here ++ [name], some rest) := by
  rw [stop, if_neg h1, if_neg h2, if_neg h3, if_neg h4]
  rcases hq with hq | ⟨content, hq⟩ <;> simp only [hq]

theorem stop_eq_of_directory (h1 : ¬(name = "" ∨ name = ".")) (h2 : name ≠ "..")
    (h3 : ¬(purpose = .write ∧ rest ≠ [] ∧ rest.all (· == "")))
    (h4 : ¬greatestName < (utf8 name).length) (hq : t.get? (here ++ [name]) = some .directory) :
    t.stop purpose links here (name :: rest) = t.stop purpose links (here ++ [name]) rest := by
  rw [stop, if_neg h1, if_neg h2, if_neg h3, if_neg h4]
  simp only [hq]

theorem stop_eq_of_link {target : String} (h1 : ¬(name = "" ∨ name = ".")) (h2 : name ≠ "..")
    (h3 : ¬(purpose = .write ∧ rest ≠ [] ∧ rest.all (· == "")))
    (h4 : ¬greatestName < (utf8 name).length)
    (hq : t.get? (here ++ [name]) = some (.link target)) :
    t.stop purpose links here (name :: rest)
      = match links with
        | 0 => .error .tooManyLinks
        | n + 1 => t.stop purpose n (start here target) (FileTree.names target ++ rest) := by
  rw [stop, if_neg h1, if_neg h2, if_neg h3, if_neg h4]
  simp only [hq]

theorem walk_eq :
    t.walk purpose links here names = (t.stop purpose links here names).bind t.arrive := by
  fun_induction walk t purpose links here names with
  | case1 => rw [stop]; rfl
  | case2 _ _ _ _ h1 ih => rw [stop, if_pos h1, ih]
  | case3 _ _ _ h1 ih => rw [stop, if_neg h1, if_pos rfl, ih]
  | case4 _ _ _ _ h1 h2 h3 => rw [stop, if_neg h1, if_neg h2, if_pos h3]; rfl
  | case5 _ _ _ _ h1 h2 h3 h4 => rw [stop, if_neg h1, if_neg h2, if_neg h3, if_pos h4]; rfl
  | case6 _ _ _ _ h1 h2 h3 h4 q hq hr | case7 _ _ _ _ h1 h2 h3 h4 q hq hr =>
    rw [stop_eq_of_free h1 h2 h3 h4 (.inl hq)]
    simp [Except.bind, arrive, q, hq, hr]
  | case8 _ _ _ _ h1 h2 h3 h4 q content hq hr | case9 _ _ _ _ h1 h2 h3 h4 q content hq hr =>
    rw [stop_eq_of_free h1 h2 h3 h4 (.inr ⟨content, hq⟩)]
    simp [Except.bind, arrive, q, hq, hr]
  | case10 _ _ _ _ h1 h2 h3 h4 q hq ih => rw [stop_eq_of_directory h1 h2 h3 h4 hq, ih]
  | case11 _ _ _ h1 h2 h3 h4 q target hq =>
    rw [stop_eq_of_link h1 h2 h3 h4 hq]
    rfl
  | case12 _ _ _ h1 h2 h3 h4 q target hq _ ih => rw [stop_eq_of_link h1 h2 h3 h4 hq, ih]

theorem stop_free (h : t.stop purpose links here names = .ok (q, some rest)) : t.IsFree q := by
  fun_induction stop t purpose links here names with
  | case1 | case4 | case5 | case9 => simp at h
  | case2 _ _ _ _ _ ih | case3 _ _ _ _ ih => exact ih h
  | case6 _ _ _ _ _ _ _ _ _ hg =>
    simp only [Except.ok.injEq, Prod.mk.injEq] at h
    exact h.1 ▸ .inl hg
  | case7 _ _ _ _ _ _ _ _ _ _ hg =>
    simp only [Except.ok.injEq, Prod.mk.injEq] at h
    exact h.1 ▸ .inr ⟨_, hg⟩
  | case8 _ _ _ _ _ _ _ _ _ _ ih | case10 _ _ _ _ _ _ _ _ _ _ _ ih => exact ih h

theorem stop_congr (h : t.SameWays u) :
    u.stop purpose links here names = t.stop purpose links here names := by
  fun_induction stop t purpose links here names with
  | case1 => rw [stop]
  | case2 _ _ _ _ h1 ih => rw [stop, if_pos h1, ih]
  | case3 _ _ _ h1 ih => rw [stop, if_neg h1, if_pos rfl, ih]
  | case4 _ _ _ _ h1 h2 h3 => rw [stop, if_neg h1, if_neg h2, if_pos h3]
  | case5 _ _ _ _ h1 h2 h3 h4 => rw [stop, if_neg h1, if_neg h2, if_neg h3, if_pos h4]
  | case6 _ _ _ _ h1 h2 h3 h4 q hq =>
    exact stop_eq_of_free h1 h2 h3 h4 (h.isFree (.inl hq))
  | case7 _ _ _ _ h1 h2 h3 h4 q content hq =>
    exact stop_eq_of_free h1 h2 h3 h4 (h.isFree (.inr ⟨content, hq⟩))
  | case8 _ _ _ _ h1 h2 h3 h4 q hq ih =>
    rw [stop_eq_of_directory h1 h2 h3 h4 (h.get? hq (by simp)), ih]
  | case9 _ _ _ h1 h2 h3 h4 q target hq => rw [stop_eq_of_link h1 h2 h3 h4 (h.get? hq (by simp))]
  | case10 _ _ _ h1 h2 h3 h4 q target hq _ ih =>
    rw [stop_eq_of_link h1 h2 h3 h4 (h.get? hq (by simp))]
    exact ih

/-- Where a walk to a file that is written stops, it stops when it only looks. -/
theorem stop_look {x : Place × Option (List String)}
    (h : t.stop .write links here names = .ok x) : t.stop .look links here names = .ok x := by
  have hlook : ∀ rest : List String,
      ¬(Purpose.look = .write ∧ rest ≠ [] ∧ rest.all (· == "")) := by simp
  fun_induction stop t .write links here names with
  | case1 => rwa [stop]
  | case2 _ _ _ _ h1 ih =>
    rw [stop, if_pos h1]
    exact ih h
  | case3 _ _ _ h1 ih =>
    rw [stop, if_neg h1, if_pos rfl]
    exact ih h
  | case4 | case5 | case9 => simp at h
  | case6 _ _ _ rest h1 h2 _ h4 _ hq =>
    rwa [stop_eq_of_free h1 h2 (hlook rest) h4 (.inl hq)]
  | case7 _ _ _ rest h1 h2 _ h4 _ content hq =>
    rwa [stop_eq_of_free h1 h2 (hlook rest) h4 (.inr ⟨content, hq⟩)]
  | case8 _ _ _ rest h1 h2 _ h4 _ hq ih =>
    rw [stop_eq_of_directory h1 h2 (hlook rest) h4 hq]
    exact ih h
  | case10 _ _ rest h1 h2 _ h4 _ target hq _ ih =>
    rw [stop_eq_of_link h1 h2 (hlook rest) h4 hq]
    exact ih h

end Walks

/-- Where a path stops. -/
def stopAt (t : FileTree) (purpose : Purpose) (path : String) :
    Except IoFault (Place × Option (List String)) :=
  if path.toList.contains (Char.ofNat 0) then .error .nulInName
  else if path = "" then .error .noSuchFile
  else if greatestPath < (utf8 path).length then .error .nameTooLong
  else stop t purpose greatestLinks (start [] path) (names path)

section Paths

variable {purpose : Purpose} {path : String} {rest : List String}

theorem find_eq : t.find purpose path = (t.stopAt purpose path).bind t.arrive := by
  unfold find stopAt
  split
  · rfl
  split
  · rfl
  split
  · rfl
  exact walk_eq

theorem stopAt_free (h : t.stopAt purpose path = .ok (q, some rest)) : t.IsFree q := by
  unfold stopAt at h
  split at h
  · simp at h
  split at h
  · simp at h
  split at h
  · simp at h
  exact stop_free h

theorem stopAt_of_free {name : String}
    (hpath : t.stopAt purpose path = t.stop purpose greatestLinks [] (name :: rest))
    (hname : ¬(name = "" ∨ name = ".") ∧ name ≠ ".." ∧ ¬(rest ≠ [] ∧ rest.all (· == ""))
      ∧ ¬greatestName < (utf8 name).length)
    (hfree : t.IsFree [name]) : t.stopAt purpose path = .ok ([name], some rest) := by
  rw [hpath, stop_eq_of_free hname.1 hname.2.1 (fun h => hname.2.2.1 h.2) hname.2.2.2 hfree]
  rfl

theorem stopAt_name {name : String}
    (hpath : t.stopAt purpose path = t.stop purpose greatestLinks [] [name])
    (hname : ¬(name = "" ∨ name = ".") ∧ name ≠ ".." ∧ ¬greatestName < (utf8 name).length)
    (hfree : t.IsFree [name]) : t.stopAt purpose path = .ok ([name], some []) :=
  stopAt_of_free hpath ⟨hname.1, hname.2.1, by simp, hname.2.2⟩ hfree

theorem stopAt_beside {name : String}
    (hpath : t.stopAt purpose path = t.stop purpose greatestLinks [] [".", name])
    (hname : ¬(name = "" ∨ name = ".") ∧ name ≠ ".." ∧ ¬greatestName < (utf8 name).length)
    (hfree : t.IsFree [name]) : t.stopAt purpose path = .ok ([name], some []) :=
  stopAt_name (hpath.trans (by rw [stop, if_pos (.inr rfl)])) hname hfree

theorem stopAt_congr (h : t.SameWays u) : u.stopAt purpose path = t.stopAt purpose path := by
  simp only [stopAt, stop_congr h]

theorem stopAt_look {x : Place × Option (List String)} (h : t.stopAt .write path = .ok x) :
    t.stopAt .look path = .ok x := by
  unfold stopAt at h ⊢
  split at h
  · simp at h
  rename_i hnul
  split at h
  · simp at h
  rename_i hne
  split at h
  · simp at h
  rename_i hlong
  rw [if_neg hnul, if_neg hne, if_neg hlong, stop_look h]

end Paths

theorem find_here (t : FileTree) : t.find .look "." = .ok ([], some .directory) := by
  rw [show t.find .look "." = t.walk .look greatestLinks [] ["."] from rfl, walk,
    if_pos (.inr rfl), walk]

/-- Where a walk ends, if it does. -/
def ending (r : Except IoFault (Place × Option Entry)) : Option Place := r.toOption.map (·.1)

/-- The place where a path that was stopped ends, if no names are left behind it. -/
def landing : Place × Option (List String) → Option Place
  | (_, some (_ :: _)) => none
  | (place, _) => some place

theorem ending_arrive (x : Place × Option (List String)) : ending (t.arrive x) = landing x := by
  rcases x with ⟨place, _ | _ | ⟨name, rest⟩⟩
  · rfl
  · rfl
  · rcases hp : t.get? place <;> simp [arrive, hp, landing] <;> rfl

section Directories

variable {purpose : Purpose} {links : Nat} {here : Place} {name : String}
  {names tail : List String}

/-- A path with more names goes on where the path ends, if it ends in a directory; where it ends
elsewhere, these names are left. The names behind are no slashes at the end, which a write would
refuse. -/
theorem stop_append (htail : purpose = .look ∨ ∃ name ∈ tail, name ≠ "") :
    (∃ home links', t.stop .look links here names = .ok (home, none)
        ∧ t.stop purpose links here (names ++ tail) = t.stop purpose links' home tail)
      ∨ (∀ home, t.stop .look links here names ≠ .ok (home, none))
        ∧ ∀ x, t.stop purpose links here (names ++ tail) = .ok x →
          ∃ rest, x.2 = some (rest ++ tail) := by
  have hbehind : ∀ rest : List String,
      ¬(purpose = .write ∧ rest ++ tail ≠ [] ∧ (rest ++ tail).all (· == "")) := by
    rintro rest ⟨rfl, -, hall⟩
    obtain ⟨name, hname, hne⟩ := htail.resolve_left (by simp)
    exact hne (beq_iff_eq.1 (List.all_eq_true.1 hall name (List.mem_append_right _ hname)))
  fun_induction stop t .look links here names with
  | case1 links here => exact .inl ⟨here, links, rfl, rfl⟩
  | case2 _ _ _ rest h1 ih =>
    rw [List.cons_append, stop, if_pos h1]
    exact ih
  | case3 _ _ rest h1 ih =>
    rw [List.cons_append, stop, if_neg h1, if_pos rfl]
    exact ih
  | case4 _ _ _ _ _ _ h3 => simp at h3
  | case5 _ _ _ rest h1 h2 _ h4 =>
    rw [List.cons_append, stop, if_neg h1, if_neg h2, if_neg (hbehind rest), if_pos h4]
    exact .inr ⟨by simp, by simp⟩
  | case6 _ _ _ rest h1 h2 _ h4 place hg =>
    rw [List.cons_append, stop_eq_of_free h1 h2 (hbehind rest) h4 (.inl hg)]
    exact .inr ⟨by simp, fun x hx => ⟨rest, by rw [← Except.ok.inj hx]⟩⟩
  | case7 _ _ _ rest h1 h2 _ h4 place content hg =>
    rw [List.cons_append, stop_eq_of_free h1 h2 (hbehind rest) h4 (.inr ⟨content, hg⟩)]
    exact .inr ⟨by simp, fun x hx => ⟨rest, by rw [← Except.ok.inj hx]⟩⟩
  | case8 _ _ _ rest h1 h2 _ h4 place hg ih =>
    rw [List.cons_append, stop_eq_of_directory h1 h2 (hbehind rest) h4 hg]
    exact ih
  | case9 _ _ rest h1 h2 _ h4 place target hg =>
    rw [List.cons_append, stop_eq_of_link h1 h2 (hbehind rest) h4 hg]
    exact .inr ⟨by simp, by simp⟩
  | case10 _ _ rest h1 h2 _ h4 place target hg _ ih =>
    rw [List.cons_append, stop_eq_of_link h1 h2 (hbehind rest) h4 hg]
    simp only [← List.append_assoc]
    exact ih

theorem stop_slashes (hall : tail.all (· == "")) :
    t.stop purpose links here tail = .ok (here, none) := by
  induction tail with
  | nil => rw [stop]
  | cons name tail ih =>
    rw [List.all_cons, Bool.and_eq_true, beq_iff_eq] at hall
    rw [stop, if_pos (.inl hall.1), ih hall.2]

/-- Behind slashes at its end a path does not stop at a file. -/
theorem stop_append_slashes (hne : tail ≠ []) (hall : tail.all (· == "")) :
    t.stop .look links here (names ++ tail) ≠ .ok (q, some []) := by
  intro h
  rcases @stop_append t .look links here names tail (.inl rfl) with
    ⟨home, links', -, hstop⟩ | ⟨-, hrest⟩
  · rw [hstop, stop_slashes hall] at h
    simp at h
  · obtain ⟨rest, hx⟩ := hrest _ h
    simp [hne] at hx

/-- Where a walk that only looks stops at a file, it stops when the file is written, for no slashes
are left there. -/
theorem stop_write (h : t.stop .look links here names = .ok (q, some [])) :
    t.stop .write links here names = .ok (q, some []) := by
  have hleft : ∀ {links here rest}, t.stop .look links here rest = .ok (q, some []) →
      ∀ front tail, rest = front ++ tail →
        ¬(Purpose.write = .write ∧ tail ≠ [] ∧ tail.all (· == "")) := by
    rintro links here rest hstop front tail rfl ⟨-, hne, hall⟩
    exact stop_append_slashes hne hall hstop
  have hfree : t.IsFree q := stop_free h
  fun_induction stop t .look links here names with
  | case1 | case4 | case5 | case9 => simp_all
  | case2 _ _ _ _ h1 ih =>
    rw [stop, if_pos h1]
    exact ih h
  | case3 _ _ _ h1 ih =>
    rw [stop, if_neg h1, if_pos rfl]
    exact ih h
  | case6 _ _ _ _ h1 h2 _ h4 | case7 _ _ _ _ h1 h2 _ h4 =>
    obtain ⟨rfl, hrest⟩ := Prod.mk.inj (Except.ok.inj h)
    obtain rfl := Option.some.inj hrest
    exact stop_eq_of_free h1 h2 (by simp) h4 hfree
  | case8 _ _ _ rest h1 h2 _ h4 _ hq ih =>
    rw [stop_eq_of_directory h1 h2 (hleft h [] rest rfl) h4 hq]
    exact ih h
  | case10 _ _ rest h1 h2 _ h4 _ target hq _ ih =>
    rw [stop_eq_of_link h1 h2 (hleft h _ rest rfl) h4 hq]
    exact ih h

theorem landing_stop_one {home place : Place}
    (hname : ¬(name = "" ∨ name = ".") ∧ name ≠ "..")
    (hlink : ∀ target, t.get? (home ++ [name]) ≠ some (.link target))
    (h : (t.stop purpose links home [name]).toOption.bind landing = some place) :
    place = home ++ [name] := by
  rw [stop, if_neg hname.1, if_neg hname.2, if_neg (by simp)] at h
  split at h
  · simp [Except.toOption] at h
  rcases hg : t.get? (home ++ [name]) with _ | _ | _ | target <;> simp only [hg] at h
  · simpa [Except.toOption, landing, eq_comm] using h
  · simpa [Except.toOption, landing, eq_comm] using h
  · rw [stop] at h
    simpa [Except.toOption, landing, eq_comm] using h
  · exact absurd hg (hlink target)

/-- A file that one path with its name finds in a directory, every other finds there. -/
theorem stop_one_file {home : Place} {content : Bytes}
    (hname : ¬(name = "" ∨ name = ".") ∧ name ≠ "..") {x : Place × Option (List String)}
    (h : t.stop .look links home [name] = .ok x)
    (hget : t.get? (home ++ [name]) = some (.file content)) (links' : Nat) :
    t.stop purpose links' home [name] = .ok (home ++ [name], some []) := by
  refine stop_eq_of_free hname.1 hname.2 (by simp) (fun hlong => ?_) (.inr ⟨content, hget⟩)
  rw [stop, if_neg hname.1, if_neg hname.2, if_neg (by simp), if_pos hlong] at h
  simp at h

end Directories

/-- Whether a directory is found under a path is seen where the path stops. -/
theorem find_directory_iff {path : String} {home : Place} :
    t.find .look path = .ok (home, some .directory) ↔ t.stopAt .look path = .ok (home, none) := by
  rw [find_eq]
  rcases hs : t.stopAt .look path with e | ⟨place, _ | _ | ⟨name, rest⟩⟩
  · simp [Except.bind]
  · simp [Except.bind, arrive]
  · rcases stopAt_free hs with hfree | ⟨content, hfree⟩ <;> simp [Except.bind, arrive, hfree]
  · rcases hp : t.get? place <;> simp [Except.bind, arrive, hp]

theorem find_file {path : String} {purpose : Purpose} {content : Bytes}
    (h : t.find purpose path = .ok (q, some (.file content))) :
    t.stopAt purpose path = .ok (q, some []) ∧ t.get? q = some (.file content) := by
  rw [find_eq] at h
  rcases hs : t.stopAt purpose path with e | ⟨place, _ | _ | ⟨name, rest⟩⟩ <;> rw [hs] at h
  · cases h
  · cases h
  · obtain ⟨rfl, hget⟩ := Prod.mk.inj (Except.ok.inj h)
    exact ⟨rfl, hget⟩
  · rcases hp : t.get? place <;> simp [Except.bind, arrive, hp] at h

/-- A file that is found under a path is written there. -/
theorem stopAt_write {path : String} (h : t.stopAt .look path = .ok (q, some [])) :
    t.stopAt .write path = .ok (q, some []) := by
  unfold stopAt at h ⊢
  split at h
  · simp at h
  rename_i hnul
  split at h
  · simp at h
  rename_i hne
  split at h
  · simp at h
  rename_i hlong
  rw [if_neg hnul, if_neg hne, if_neg hlong, stop_write h]

/-- The place where a file is written under a path. -/
def target? (t : FileTree) (path : Path) : Option Place := ending (t.find .write path.text)

/-- The place that is looked at under a path. -/
def source? (t : FileTree) (path : Path) : Option Place := ending (t.find .look path.text)

theorem ending_find (t : FileTree) (purpose : Purpose) (path : String) :
    ending (t.find purpose path) = (t.stopAt purpose path).toOption.bind landing := by
  rw [find_eq]
  rcases t.stopAt purpose path with e | x
  · rfl
  · exact ending_arrive x

theorem target?_of_stopAt {path : Path} {x : Place × Option (List String)}
    (h : t.stopAt .write path.text = .ok x) : t.target? path = landing x := by
  rw [target?, ending_find, h]
  rfl

theorem target?_congr (h : t.SameWays u) (path : Path) : u.target? path = t.target? path := by
  simp only [target?, ending_find, stopAt_congr h]

theorem source?_congr (h : t.SameWays u) (path : Path) : u.source? path = t.source? path := by
  simp only [source?, ending_find, stopAt_congr h]

end ImapProbe.FileTree
