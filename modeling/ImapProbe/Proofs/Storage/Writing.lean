import ImapProbe.Proofs.Storage.Reach

/-!
# What writing changes

A file that is written changes one place (`get?_set`), and no path leads elsewhere for it
(`target?_set`). So after files were written in a row, a place holds what was written there last,
and otherwise what it held before (`Written.get?_eq`).
-/

namespace ImapProbe.FileTree

variable {t t' : FileTree} {place q : Place} {content : Bytes}

theorem lookup_cons_if {α : Type} (e : Place × α) (entries : List (Place × α)) (q : Place) :
    (e :: entries).lookup q = if q = e.1 then some e.2 else entries.lookup q := by
  obtain ⟨key, entry⟩ := e
  by_cases h : q = key
  · simp [h]
  · simp [List.lookup_cons, beq_false_of_ne h, h]

theorem lookup_map_of_ne {entry : Entry} (hq : q ≠ place) (entries : List (Place × Entry)) :
    (entries.map fun e => if e.1 == place then (place, entry) else e).lookup q
      = entries.lookup q := by
  induction entries with
  | nil => rfl
  | cons e entries ih =>
    rw [List.map_cons, lookup_cons_if, lookup_cons_if, ih]
    by_cases he : e.1 = place
    · simp [he, hq]
    · simp [he]

theorem lookup_map_self {entry : Entry} {entries : List (Place × Entry)}
    (h : (entries.lookup place).isSome) :
    (entries.map fun e => if e.1 == place then (place, entry) else e).lookup place
      = some entry := by
  induction entries with
  | nil => simp at h
  | cons e entries ih =>
    rw [lookup_cons_if] at h
    rw [List.map_cons, lookup_cons_if]
    by_cases he : place = e.1
    · simp [← he]
    · rw [if_neg he] at h
      rw [ih h]
      simp [Ne.symm he, he]

theorem lookup_set (t : FileTree) (place q : Place) (entry : Entry) :
    (t.set place entry).entries.lookup q
      = if q = place then some entry else t.entries.lookup q := by
  unfold set
  by_cases hq : q = place <;> split <;> rename_i hp
  · subst hq
    exact lookup_map_self hp
  · subst hq
    simp [List.lookup_append, Option.not_isSome_iff_eq_none.1 hp]
  · exact lookup_map_of_ne hq t.entries
  · simp [List.lookup_append, lookup_cons_if, hq]

theorem mem_set {e : Place × Entry} {entry : Entry}
    (h : e ∈ (t.set place entry).entries) :
    e = (place, entry) ∨ e.1 ≠ place ∧ e ∈ t.entries := by
  unfold set at h
  split at h <;> rename_i hp
  · obtain ⟨old, hold, rfl⟩ := List.mem_map.1 h
    by_cases he : old.1 = place
    · simp [he]
    · simp [he, hold]
  · rcases List.mem_append.1 h with hold | he
    · refine .inr ⟨?_, hold⟩
      rintro rfl
      rw [Option.not_isSome_iff_eq_none, List.lookup_eq_none_iff] at hp
      exact absurd (hp e hold) (by simp)
    · exact .inl (List.mem_singleton.1 he)

theorem get?_set (h : isGiven place = false) (q : Place) (entry : Entry) :
    (t.set place entry).get? q = if q = place then some entry else t.get? q := by
  unfold get?
  rw [lookup_set]
  split <;> rename_i hq
  · rw [if_neg]
    rintro rfl
    simp [hq] at h
  · rfl

/-- Writing a file leaves every directory and every link as it was. -/
theorem IsFree.sameWays (h : t.IsFree place) : t.SameWays (t.set place (.file content)) := by
  intro q
  rw [get?_set h.not_given]
  split <;> rename_i hq
  · subst hq
    exact .inr ⟨h, .inr ⟨content, by rw [get?_set h.not_given, if_pos rfl]⟩⟩
  · exact .inl rfl

/-- Writing changes nothing about where files are written. -/
theorem target?_set (h : t.IsFree place) (path : Path) :
    (t.set place (.file content)).target? path = t.target? path :=
  target?_congr h.sameWays path

/-- A file that is written is set where its path stops. -/
theorem write_stops {path : Path} (h : t.write path content = .ok t') :
    ∃ place, t.stopAt .write path.text = .ok (place, some [])
      ∧ t' = t.set place (.file content) := by
  unfold write at h
  rw [find_eq] at h
  rcases hs : t.stopAt .write path.text with e | ⟨place, _ | _ | ⟨name, rest⟩⟩ <;> rw [hs] at h
  · simp [Except.bind] at h
  · simp [Except.bind, arrive] at h
  · refine ⟨place, rfl, ?_⟩
    rcases stopAt_free hs with hfree | ⟨old, hfree⟩ <;>
      simpa [Except.bind, arrive, hfree, eq_comm] using h
  · rcases hg : t.get? place <;> simp [Except.bind, arrive, hg] at h

theorem write_ok {path : Path} (h : t.write path content = .ok t') :
    ∃ place, t.target? path = some place ∧ t.IsFree place ∧ t' = t.set place (.file content) := by
  obtain ⟨place, hstop, ht⟩ := write_stops h
  exact ⟨place, target?_of_stopAt hstop, stopAt_free hstop, ht⟩

/-- A file is written where its path stops with nothing left behind. -/
theorem write_of_stops {path : Path} (h : t.stopAt .write path.text = .ok (place, some [])) :
    t.write path content = .ok (t.set place (.file content)) := by
  rcases stopAt_free h with hfree | ⟨old, hfree⟩ <;>
    simp [write, find_eq, h, Except.bind, arrive, hfree]

/-- No file is written to a directory. -/
theorem write_of_directory {path : Path} (h : t.stopAt .write path.text = .ok (place, none)) :
    t.write path content = .error .isDirectory := by
  simp [write, find_eq, h, Except.bind, arrive]

theorem read_of_stops {path : Path} (hstop : t.stopAt .look path.text = .ok (place, some []))
    (hget : t.get? place = some (.file content)) : t.read path = .ok content := by
  rw [read, find_eq, hstop]
  simp [Except.bind, arrive, hget]

section Names

variable {name : String}
  (hname : ¬(name = "" ∨ name = ".") ∧ name ≠ ".." ∧ ¬greatestName < (utf8 name).length)

include hname

theorem read_of_get (hpath : t.stopAt .look name = t.stop .look greatestLinks [] [name])
    (hget : t.get? [name] = some (.file content)) : t.read ⟨name⟩ = .ok content :=
  read_of_stops (stopAt_name hpath hname (.inr ⟨_, hget⟩)) hget

theorem write_of_missing (hpath : t.stopAt .write name = t.stop .write greatestLinks [] [name])
    (hget : t.get? [name] = none) : t.write ⟨name⟩ content = .ok (t.set [name] (.file content)) :=
  write_of_stops (stopAt_name hpath hname (.inl hget))

end Names

theorem read_stops {path : Path} (h : t.read path = .ok content) :
    ∃ place, t.stopAt .look path.text = .ok (place, some [])
      ∧ t.get? place = some (.file content) := by
  unfold read at h
  split at h
  · simp at h
  · simp at h
  · rename_i place old hfind
    obtain rfl := Except.ok.inj h
    exact ⟨place, find_file hfind⟩
  · simp at h

/-- A file that is read can be written, and reads then as it was written. -/
theorem write_of_read {path : Path} {old : Bytes} (h : t.read path = .ok old) (content : Bytes) :
    ∃ place, t.source? path = some place ∧ t.IsFree place
      ∧ t.write path content = .ok (t.set place (.file content))
      ∧ (t.set place (.file content)).read path = .ok content := by
  obtain ⟨place, hstop, -⟩ := read_stops h
  have hfree : t.IsFree place := stopAt_free hstop
  have hsource : t.source? path = some place := by
    rw [source?, ending_find, hstop]
    rfl
  have hget : (t.set place (.file content)).get? place = some (.file content) := by
    rw [get?_set hfree.not_given, if_pos rfl]
  exact ⟨place, hsource, hfree, write_of_stops (stopAt_write hstop),
    read_of_stops ((stopAt_congr hfree.sameWays).trans hstop) hget⟩

/-- Files were written one after another. -/
def Written : List (Path × Bytes) → FileTree → FileTree → Prop
  | [], t, t' => t' = t
  | (path, content) :: rest, t, t' => ∃ u, t.write path content = .ok u ∧ Written rest u t'

theorem Written.append {ws' : List (Path × Bytes)} :
    ∀ {ws : List (Path × Bytes)} {t u t' : FileTree}, Written ws t u → Written ws' u t' →
      Written (ws ++ ws') t t'
  | [], _, _, _, h, h' => by
    obtain rfl : _ = _ := h
    exact h'
  | _ :: _, _, _, _, ⟨v, hw, h⟩, h' => ⟨v, hw, h.append h'⟩

/-- What was written last to a place. -/
def lastAt? (t : FileTree) (place : Place) (ws : List (Path × Bytes)) : Option Bytes :=
  (ws.reverse.find? fun w => t.target? w.1 == some place).map (·.2)

theorem lastAt?_cons (t : FileTree) (place : Place) (w : Path × Bytes) (ws : List (Path × Bytes)) :
    t.lastAt? place (w :: ws)
      = (t.lastAt? place ws).or (if t.target? w.1 = some place then some w.2 else none) := by
  simp only [lastAt?, List.reverse_cons, List.find?_append, Option.map_or]
  congr 1
  by_cases h : t.target? w.1 = some place <;> simp [h]

theorem lastAt?_set (h : t.IsFree place) (q : Place) (ws : List (Path × Bytes)) :
    (t.set place (.file content)).lastAt? q ws = t.lastAt? q ws := by
  simp only [lastAt?, target?_set h]

/-- After files were written, a place holds what was written there last; where nothing was written
it holds what it held. -/
theorem Written.get?_eq :
    ∀ {ws : List (Path × Bytes)} {t t' : FileTree}, Written ws t t' → ∀ place,
      t'.get? place = ((t.lastAt? place ws).map .file).or (t.get? place)
  | [], t, _, h, place => by
    obtain rfl : _ = t := h
    simp [lastAt?]
  | (path, content) :: ws, t, t', ⟨u, hw, h⟩, place => by
    obtain ⟨q, hq, hfree, rfl⟩ := write_ok hw
    rw [h.get?_eq place, lastAt?_set hfree, lastAt?_cons, get?_set hfree.not_given, hq]
    rcases t.lastAt? place ws with _ | last
    · by_cases hp : place = q
      · simp [hp]
      · simp [hp, Ne.symm hp]
    · rfl

theorem Written.sameWays :
    ∀ {ws : List (Path × Bytes)} {t t' : FileTree}, Written ws t t' → t.SameWays t'
  | [], t, _, h => by
    obtain rfl : _ = t := h
    exact .refl _
  | _ :: _, _, _, ⟨_, hw, h⟩ => by
    obtain ⟨_, -, hfree, rfl⟩ := write_ok hw
    exact hfree.sameWays.trans h.sameWays

theorem Written.stops :
    ∀ {ws : List (Path × Bytes)} {t t' : FileTree}, Written ws t t' →
      ∀ w ∈ ws, ∃ place, t.stopAt .write w.1.text = .ok (place, some [])
  | [], _, _, _ => by simp
  | w :: ws, t, t', ⟨u, hw, h⟩ => by
    obtain ⟨place, hstop, rfl⟩ := write_stops hw
    refine List.forall_mem_cons.2 ⟨⟨place, hstop⟩, fun w' hw' => ?_⟩
    simpa only [stopAt_congr (stopAt_free hstop).sameWays] using h.stops w' hw'

theorem Written.target? {ws : List (Path × Bytes)} (h : Written ws t t') :
    ∀ w ∈ ws, ∃ place, t.target? w.1 = some place := by
  intro w hw
  obtain ⟨place, hstop⟩ := h.stops w hw
  exact ⟨place, target?_of_stopAt hstop⟩

theorem lastAt?_isSome {ws : List (Path × Bytes)} {w : Path × Bytes} (hw : w ∈ ws)
    (hplace : t.target? w.1 = some place) : (t.lastAt? place ws).isSome := by
  rw [lastAt?, Option.isSome_map, List.find?_isSome]
  exact ⟨w, List.mem_reverse.2 hw, by simp [hplace]⟩

theorem exists_lastAt? {ws : List (Path × Bytes)} (h : t.lastAt? place ws = some content) :
    ∃ w ∈ ws, t.target? w.1 = some place ∧ w.2 = content := by
  obtain ⟨w, hw, rfl⟩ := Option.map_eq_some_iff.1 h
  exact ⟨w, List.mem_reverse.1 (List.mem_of_find?_eq_some hw), by simpa using List.find?_some hw,
    rfl⟩

/-- After files were written, a file reads as what was written last at its place, or else as
before. -/
theorem Written.read_of_stops {ws : List (Path × Bytes)} (h : Written ws t t') {path : Path}
    (hstop : t.stopAt .look path.text = .ok (place, some []))
    (hget : t.get? place = some (.file content)) :
    t'.read path = .ok ((t.lastAt? place ws).getD content) := by
  refine FileTree.read_of_stops ((stopAt_congr h.sameWays).trans hstop) ?_
  rw [h.get?_eq, hget]
  rcases t.lastAt? place ws with _ | last <;> rfl

/-- A file that was written reads as what was written last at its place. -/
theorem Written.read_eq {ws : List (Path × Bytes)} (h : Written ws t t') {w : Path × Bytes}
    (hw : w ∈ ws) :
    ∃ place content, t.target? w.1 = some place ∧ t.lastAt? place ws = some content
      ∧ t'.read w.1 = .ok content := by
  obtain ⟨place, hstop⟩ := h.stops w hw
  have htarget : t.target? w.1 = some place := target?_of_stopAt hstop
  obtain ⟨content, hlast⟩ := Option.isSome_iff_exists.1 (lastAt?_isSome hw htarget)
  have hget : t'.get? place = some (.file content) := by rw [h.get?_eq, hlast]; rfl
  refine ⟨place, content, htarget, hlast, FileTree.read_of_stops ?_ hget⟩
  rw [stopAt_congr h.sameWays, stopAt_look hstop]

end ImapProbe.FileTree
