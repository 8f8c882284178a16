import Harvest.Proofs.Disk.Walk

/-!
# What writing and moving files changes

Writing and moving files changes what is at the places that their paths lead to, and nothing else.
The files of one directory are told apart by their names, so a file stays as it is where only files
of other names are written or moved.
-/

namespace Harvest.Disk

variable {d e f : Disk} {p : Place} {path dir name other source target : String}
  {content : Text.Bytes} {touched : String → Prop}

/-- Whether a path leads to a place through directories. -/
def LeadsTo (d : Disk) (dir : String) (q : Place) : Prop :=
  d.walk (if isAbsolute dir then [] else d.here) (names dir) = .ok q

/-- A change of files of certain names in one directory. -/
structure ChangesOnly (dir : String) (touched : String → Prop) (d e : Disk) : Prop where
  directories : SameDirectories d e
  changed : ∀ place, e.find? place ≠ d.find? place →
    ∃ q name, touched name ∧ d.LeadsTo dir q ∧ place = q ++ [name]

/-! ## Reading, writing and moving -/

/-- What can be read is the file that the path leads to. -/
theorem read_eq_ok_iff : d.read path = .ok content ↔
    ∃ p, d.resolve path = .ok p ∧ d.find? p = some (.file content) ∧
      path.toList.getLast? ≠ some '/' := by
  simp only [read, look, bind, Except.bind]
  cases d.resolve path with
  | error fault => simp
  | ok p =>
    cases hfind : d.find? p with
    | none => simp [hfind]
    | some entry =>
      cases entry with
      | directory => simp [hfind, pure, Except.pure]
      | file found =>
        by_cases hlast : path.toList.getLast? = some '/' <;>
          simp [hfind, hlast, pure, Except.pure]

/-- A file can be written where its path leads, unless there is a directory. -/
theorem write_eq_ok_iff : d.write path content = .ok e ↔
    ∃ p, d.resolve path = .ok p ∧ d.isDirectoryAt p = false ∧ e = d.put p (.file content) := by
  simp only [write, bind, Except.bind]
  cases d.resolve path with
  | error fault => simp
  | ok p =>
    by_cases hdir : d.isDirectoryAt p = true
    · simp [hdir]
    · simp [hdir, pure, Except.pure, eq_comm (a := d.put p _)]

/-- A file that can be read can be moved where its new path leads, unless there is a directory. -/
theorem rename_eq_ok_iff (h : d.read source = .ok content) : d.rename source target = .ok e ↔
    ∃ p goal, d.resolve source = .ok p ∧ d.find? p = some (.file content) ∧
      d.resolve target = .ok goal ∧ d.isDirectoryAt goal = false ∧
      e = (d.erase p).put goal (.file content) := by
  obtain ⟨p, hp, hfind, hlast⟩ := read_eq_ok_iff.mp h
  have hlook : d.look source = .ok (.file content) := by
    simp [look, hp, hfind, hlast, bind, Except.bind, pure, Except.pure]
  simp only [rename, hlook, hp, bind, Except.bind]
  cases d.resolve target with
  | error fault => simp
  | ok goal =>
    by_cases hdir : d.isDirectoryAt goal = true
    · simp [hdir]
    · simp [hdir, hfind, pure, Except.pure, eq_comm (a := (d.erase p).put goal _)]

/-- What has been written can be read. -/
theorem read_of_write (h : d.write path content = .ok e)
    (hlast : path.toList.getLast? ≠ some '/') : e.read path = .ok content := by
  obtain ⟨p, hp, hdir, rfl⟩ := write_eq_ok_iff.mp h
  refine read_eq_ok_iff.mpr ⟨p, ?_, ?_, hlast⟩
  · exact (sameDirectories_put hdir).resolve_iff.mpr hp
  · exact find?_put_self (ne_nil_of_not_directory hdir)

/-- Moving a file to where there is no directory keeps the directories. -/
theorem sameDirectories_move {goal : Place} (h : d.find? p = some (.file content))
    (hgoal : d.isDirectoryAt goal = false) :
    SameDirectories d ((d.erase p).put goal (.file content)) := by
  have herase : SameDirectories d (d.erase p) := sameDirectories_erase (by simp [isDirectoryAt, h])
  exact herase.trans (sameDirectories_put (by rw [herase.isDirectoryAt, hgoal]))

/-- What has been moved can be read under its new path. -/
theorem read_of_rename (hread : d.read source = .ok content) (h : d.rename source target = .ok e)
    (hlast : target.toList.getLast? ≠ some '/') : e.read target = .ok content := by
  obtain ⟨p, goal, hp, hfind, hgoal, hdir, rfl⟩ := (rename_eq_ok_iff hread).mp h
  refine read_eq_ok_iff.mpr ⟨goal, ?_, ?_, hlast⟩
  · exact (sameDirectories_move hfind hdir).resolve_iff.mpr hgoal
  · exact find?_put_self (ne_nil_of_not_directory hdir)

/-! ## Changes in one directory -/

/-- Disks with the same directories have paths lead to the same places. -/
theorem SameDirectories.leadsTo_iff (h : SameDirectories d e) :
    e.LeadsTo dir p ↔ d.LeadsTo dir p := by
  rw [LeadsTo, LeadsTo, h.here]
  exact h.walk_iff

namespace ChangesOnly

/-- A disk that stays as it is changes nothing. -/
theorem refl (d : Disk) : ChangesOnly dir touched d d := ⟨.refl d, fun _ h ↦ absurd rfl h⟩

/-- What changes no more than some names changes no more than others besides. -/
theorem mono {wider : String → Prop} (h : ChangesOnly dir touched d e)
    (hwider : ∀ name, touched name → wider name) : ChangesOnly dir wider d e where
  directories := h.directories
  changed := by
    intro place hne
    obtain ⟨q, name, hname, hq, hplace⟩ := h.changed place hne
    exact ⟨q, name, hwider name hname, hq, hplace⟩

/-- Two changes of the same files make one. -/
theorem trans (h : ChangesOnly dir touched d e) (k : ChangesOnly dir touched e f) :
    ChangesOnly dir touched d f where
  directories := h.directories.trans k.directories
  changed := by
    intro place hne
    by_cases hsame : e.find? place = d.find? place
    · obtain ⟨q, name, hname, hq, hplace⟩ := k.changed place (by rwa [hsame])
      exact ⟨q, name, hname, h.directories.leadsTo_iff.mp hq, hplace⟩
    · exact h.changed place hsame

/-- Files of other names stay as they are. -/
theorem read_iff (h : ChangesOnly dir touched d e) (hplain : IsPlain name)
    (hname : ¬ touched name) :
    e.read (join dir name) = .ok content ↔ d.read (join dir name) = .ok content := by
  rw [read_eq_ok_iff, read_eq_ok_iff]
  simp only [h.directories.resolve_iff]
  refine exists_congr fun p ↦ and_congr_right fun hp ↦ ?_
  obtain ⟨q, -, -, rfl⟩ := resolve_join hplain hp
  by_cases hsame : e.find? (q ++ [name]) = d.find? (q ++ [name])
  · rw [hsame]
  · obtain ⟨q', name', htouched, -, hplace⟩ := h.changed _ hsame
    obtain ⟨-, hnames⟩ := List.append_inj' hplace rfl
    obtain rfl : name = name' := by simpa using hnames
    exact absurd htouched hname

end ChangesOnly

/-- Writing a file changes that file only. -/
theorem changesOnly_write (hplain : IsPlain name) (h : d.write (join dir name) content = .ok e) :
    ChangesOnly dir (· = name) d e := by
  obtain ⟨p, hp, hdir, rfl⟩ := write_eq_ok_iff.mp h
  obtain ⟨q, hq, -, rfl⟩ := resolve_join hplain hp
  refine ⟨sameDirectories_put hdir, fun place hne ↦ ?_⟩
  by_cases hplace : place = q ++ [name]
  · exact ⟨q, name, rfl, hq, hplace⟩
  · exact absurd (find?_put_of_ne _ hplace) hne

/-- Moving a file within a directory changes what has its old name and what has its new one. -/
theorem changesOnly_rename (hplain : IsPlain name) (hplain' : IsPlain other)
    (hread : d.read (join dir name) = .ok content)
    (h : d.rename (join dir name) (join dir other) = .ok e) :
    ChangesOnly dir (fun n ↦ n = name ∨ n = other) d e := by
  obtain ⟨p, goal, hp, hfind, hgoal, hdir, rfl⟩ := (rename_eq_ok_iff hread).mp h
  obtain ⟨q, hq, -, rfl⟩ := resolve_join hplain hp
  obtain ⟨q', hq', -, rfl⟩ := resolve_join hplain' hgoal
  refine ⟨sameDirectories_move hfind hdir, fun place hne ↦ ?_⟩
  by_cases hsource : place = q ++ [name]
  · exact ⟨q, name, .inl rfl, hq, hsource⟩
  · by_cases htarget : place = q' ++ [other]
    · exact ⟨q', other, .inr rfl, hq', htarget⟩
    · rw [find?_put_of_ne _ htarget, find?_erase_of_ne hsource] at hne
      exact absurd rfl hne

end Harvest.Disk
