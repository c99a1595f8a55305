import LinearInterchange.Conversion.Outlet
import Mathlib.Data.List.Basic

/-!
# Files in a folder

A file that is moved to a path gets a place in a folder, and the path goes on leading to that place
whatever files are put into the folder later, since only directories decide where a path leads
(`Leads`).  So what is read along a path is what was put at its place last.  Files whose names
differ have different places in a directory.
-/

namespace LinearInterchange.Folder

variable {folder : Folder} {path name : String} {here there place : List String}
  {steps more : List String} {bytes : List UInt8}

/-! ## Walks -/

/-- A step to a directory is taken. -/
lemma walk_cons_of_dir {step : String}
    (h : (isWaypoint step || folder.hasDir (enter here step)) = true) :
    folder.walk here (step :: steps) = folder.walk (enter here step) steps := by
  rw [walk, if_pos h]

/-- A walk to a directory only takes steps to directories. -/
lemma walk_cons_eq_dir {step : String} :
    folder.walk here (step :: steps) = .ok (.dir there) ↔
      (isWaypoint step || folder.hasDir (enter here step)) = true ∧
        folder.walk (enter here step) steps = .ok (.dir there) := by
  refine ⟨fun h => ?_, fun h => (walk_cons_of_dir h.1).trans h.2⟩
  by_cases hdir : (isWaypoint step || folder.hasDir (enter here step)) = true
  · exact ⟨hdir, (walk_cons_of_dir hdir).symm.trans h⟩
  · -- a step that leads to no directory ends the walk at a file or nowhere
    rw [walk, if_neg hdir] at h
    split at h
    · cases h
    · split at h
      · split at h <;> cases h
      · cases h

/-- A walk to a directory goes on from there. -/
lemma walk_append (h : folder.walk here steps = .ok (.dir there)) :
    folder.walk here (steps ++ more) = folder.walk there more := by
  induction steps generalizing here with
  | nil =>
    cases h
    rfl
  | cons step steps ih =>
    obtain ⟨hdir, hwalk⟩ := walk_cons_eq_dir.1 h
    exact (walk_cons_of_dir hdir).trans (ih hwalk)

/-- A walk that ends by staying where it is has got to a directory before. -/
lemma walk_of_walk_stay (h : folder.walk here (steps ++ ["."]) = .ok (.dir there)) :
    folder.walk here steps = .ok (.dir there) := by
  induction steps generalizing here with
  | nil => exact (walk_cons_eq_dir.1 h).2
  | cons step steps ih =>
    obtain ⟨hdir, hwalk⟩ := walk_cons_eq_dir.1 h
    exact walk_cons_eq_dir.2 ⟨hdir, ih hwalk⟩

/-- A walk to a directory does not depend on the files. -/
lemma walk_put (h : folder.walk here steps = .ok (.dir there)) :
    (folder.put bytes place).walk here steps = .ok (.dir there) := by
  induction steps generalizing here with
  | nil => exact h
  | cons step steps ih =>
    obtain ⟨hdir, hwalk⟩ := walk_cons_eq_dir.1 h
    exact walk_cons_eq_dir.2 ⟨hdir, ih hwalk⟩

/-- The directory that is found at a path is where the names on the path lead. -/
lemma walk_names_of_find (h : folder.find path = .ok (.dir here)) :
    folder.walk [] (names path) = .ok (.dir here) := by
  unfold find at h
  split at h
  · cases h
  · split at h
    · cases h
    · split at h
      · cases h
      · unfold steps at h
        split at h
        · exact walk_of_walk_stay h
        · rwa [List.append_nil] at h

/-! ## Places of files -/

/-- A path leads to a name in a directory which a file may have there. -/
structure Leads (folder : Folder) (path : String) (here : List String) (name : String) : Prop where
  noZero : hasZero path = false
  short : isLongPath path = false
  unmarked : isMarkedDir path = false
  way : ∃ above, names path = above ++ [name] ∧ folder.walk [] above = .ok (.dir here)
  named : isWaypoint name = false
  shortName : isLongName name = false
  noDir : folder.hasDir (here ++ [name]) = false

/-- A name that is none for a directory on the way adds itself to a path. -/
lemma enter_of_named (h : isWaypoint name = false) : enter here name = here ++ [name] := by
  simp only [isWaypoint, Bool.or_eq_false_iff, decide_eq_false_iff_not] at h
  rw [enter, if_neg h.1.1, if_neg h.1.2]

/-- The last name on a path is looked up where the names before it lead. -/
lemma locate_ok (h : folder.locate path = .ok (here, name)) :
    isLongPath path = false ∧
      ∃ above, names path = above ++ [name] ∧ folder.walk [] above = .ok (.dir here) := by
  unfold locate at h
  split at h
  · cases h
  next hlong =>
    refine ⟨Bool.eq_false_iff.2 hlong, ?_⟩
    split at h
    · cases h
    next last above hnames =>
      split at h
      · cases h
      · cases h
      next hwalk =>
        cases h
        refine ⟨above.reverse, ?_, hwalk⟩
        rw [← List.reverse_reverse (names path), hnames, List.reverse_cons]

/-- A file is moved to the name in a directory that its path leads to. -/
lemma leads_of_placeToMove (h : folder.placeToMove path = .ok place) :
    ∃ here name, folder.Leads path here name ∧ place = here ++ [name] := by
  -- the refusals are ruled out in the order in which they are checked
  unfold placeToMove at h
  split at h
  · cases h
  next hzero =>
    split at h
    · cases h
    next here name hlocate =>
      obtain ⟨hlong, hway⟩ := locate_ok hlocate
      by_cases hnamed : isWaypoint name = true
      · rw [if_pos hnamed] at h
        cases h
      by_cases hshort : isLongName name = true
      · rw [if_neg hnamed, if_pos hshort] at h
        cases h
      by_cases hmarked : isMarkedDir path = true
      · rw [if_neg hnamed, if_neg hshort, if_pos hmarked] at h
        cases h
      have henter : enter here name = here ++ [name] := enter_of_named (Bool.eq_false_iff.2 hnamed)
      by_cases hdir : folder.hasDir (here ++ [name]) = true
      · rw [if_neg hnamed, if_neg hshort, if_neg hmarked, henter, if_pos hdir] at h
        cases h
      rw [if_neg hnamed, if_neg hshort, if_neg hmarked, henter, if_neg hdir] at h
      cases h
      simp only [Bool.not_eq_true] at hzero hnamed hshort hmarked hdir
      exact ⟨here, name, ⟨hzero, hlong, hmarked, hway, hnamed, hshort, hdir⟩, rfl⟩

namespace Leads

/-- Files that are put into a folder do not change where paths lead. -/
lemma put (h : folder.Leads path here name) : (folder.put bytes place).Leads path here name :=
  let ⟨above, hnames, hwalk⟩ := h.way
  { h with way := ⟨above, hnames, walk_put hwalk⟩ }

/-- The file that is found at a path is the one at the place that the path leads to. -/
lemma find_eq (h : folder.Leads path here name) :
    folder.find path = match folder.files.get? (key (here ++ [name])) with
      | some bytes => .ok (.file (here ++ [name]) bytes)
      | none => .error .notFound := by
  obtain ⟨above, hnames, hwalk⟩ := h.way
  have hne : path.isEmpty = false := by
    rw [Bool.eq_false_iff, ne_eq, String.isEmpty_iff]
    rintro rfl
    have hlength := congrArg List.length hnames
    simp [names] at hlength
  have hsteps : Folder.steps path = above ++ [name] := by
    rw [Folder.steps, hnames, h.unmarked, if_neg (by decide), List.append_nil]
  rw [find, h.noZero, h.short, hne, if_neg (by decide), if_neg (by decide), if_neg (by decide),
    hsteps, walk_append hwalk, walk, enter_of_named h.named, h.named, h.noDir, h.shortName,
    if_neg (by decide), if_neg (by decide)]
  rfl

end Leads

/-- The last name on a path and the directory that the names before it lead to. -/
lemma Leads.eq_of_names {above : List String} {last : String} (h : folder.Leads path here name)
    (hnames : names path = above ++ [last]) (hwalk : folder.walk [] above = .ok (.dir there)) :
    here = there ∧ name = last := by
  obtain ⟨above', hnames', hwalk'⟩ := h.way
  obtain ⟨rfl, hname⟩ := List.append_inj' (hnames'.symm.trans hnames) rfl
  rw [hwalk] at hwalk'
  cases hwalk'
  exact ⟨rfl, List.singleton_inj.1 hname⟩

/-- Files of different names have different keys in a directory. -/
lemma key_concat_inj {a b : String} : key (here ++ [a]) = key (here ++ [b]) ↔ a = b := by
  rcases eq_or_ne here [] with rfl | hne
  · simp [key]
  · simp only [key, String.intercalate_append_of_ne_nil hne (List.cons_ne_nil _ _),
      String.intercalate_singleton, String.append_right_inj]

end LinearInterchange.Folder
