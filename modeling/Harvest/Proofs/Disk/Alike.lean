import Harvest.Proofs.Disk.Change

/-!
# Disks that are alike

Two disks are alike for some names in a directory where paths below the directory lead to the same
places on both, and the files of these names are the same. What is written or moved under such names
goes the same way on both disks and leaves them alike, whatever other files there are.
-/

namespace Harvest.Disk

variable {d e f d' e' : Disk} {p q : Place} {path dir name other source target : String}
  {content : Text.Bytes}
  {named touched : String → Prop} {fault : Fault}

/-! ## Paths below a directory -/

private theorem SameDirectories.symm (h : SameDirectories d e) : SameDirectories e d :=
  ⟨h.here.symm, fun place ↦ (h.isDirectoryAt place).symm⟩

/-- Disks on which paths below a directory lead to the same places, or fail in the same way. -/
structure SamePaths (dir : String) (d e : Disk) : Prop extends SameDirectories d e where
  resolve_eq : ∀ name, IsPlain name → e.resolve (join dir name) = d.resolve (join dir name)

namespace SamePaths

private theorem refl (d : Disk) : SamePaths dir d d := ⟨.refl d, fun _ _ ↦ rfl⟩

private theorem symm (h : SamePaths dir d e) : SamePaths dir e d :=
  ⟨h.toSameDirectories.symm, fun name hname ↦ (h.resolve_eq name hname).symm⟩

private theorem trans (h : SamePaths dir d e) (k : SamePaths dir e f) : SamePaths dir d f :=
  ⟨h.toSameDirectories.trans k.toSameDirectories,
    fun name hname ↦ (k.resolve_eq name hname).trans (h.resolve_eq name hname)⟩

end SamePaths

/-- A walk goes on from where its first names have led. -/
theorem walk_append_of_ok {place : Place} {first rest : List String}
    (h : d.walk place first = .ok q) : d.walk place (first ++ rest) = d.walk q rest := by
  induction first generalizing place with
  | nil =>
    obtain rfl : place = q := by simpa [walk] using h
    rfl
  | cons name first ih =>
    rw [walk] at h
    rw [List.cons_append, walk]
    split at h
    · simp at h
    · simp at h
    · split at h
      · rw [if_pos ‹_›]
        exact ih h
      · rw [if_neg ‹_›]
        split at h
        · rw [if_pos ‹_›]
          exact ih h
        · rw [if_neg ‹_›]
          split at h
          · simp at h
          · rw [if_neg ‹_›]
            exact ih h

/-- A walk depends on what is at the places that it goes through. -/
theorem walk_congr {place : Place} {steps : List String}
    (h : ∀ place, e.find? place = d.find? place) : e.walk place steps = d.walk place steps := by
  induction steps generalizing place with
  | nil => rfl
  | cons name steps ih =>
    rw [walk, walk, h place, ih, ih, ih]

/-- A step of a plain name depends on what is at the place that it starts from. -/
theorem walk_singleton_congr (hplain : IsPlain name) (h : e.find? q = d.find? q) :
    e.walk q [name] = d.walk q [name] := by
  simp only [walk, h, if_neg hplain.ne_dot, if_neg hplain.ne_dots]

/-- A path leads to one place. -/
theorem LeadsTo.unique (h : d.LeadsTo dir p) (k : d.LeadsTo dir q) : p = q :=
  Except.ok.inj (h.symm.trans k)

/-- A directory in which files are changed is none of the places that have changed. -/
theorem ChangesOnly.find?_eq (h : ChangesOnly dir touched d e) (hq : d.LeadsTo dir q) :
    e.find? q = d.find? q := by
  by_cases hsame : e.find? q = d.find? q
  · exact hsame
  · obtain ⟨q', name', -, hq', hself⟩ := h.changed q hsame
    have hlength := congrArg List.length hself
    rw [hq.unique hq', List.length_append, List.length_singleton] at hlength
    omega

/-- To change files in a directory keeps the paths below it. -/
theorem ChangesOnly.samePaths (h : ChangesOnly dir touched d e) : SamePaths dir d e := by
  refine ⟨h.directories, fun other hother ↦ ?_⟩
  rw [resolve, resolve, h.directories.here]
  by_cases hsame : ∀ place, e.find? place = d.find? place
  · rw [walk_congr hsame]
  · obtain ⟨place, hplace⟩ := Classical.not_forall.mp hsame
    obtain ⟨q, name, -, hq, -⟩ := h.changed place hplace
    have he : e.walk (if isAbsolute dir then [] else d.here) (names dir) = .ok q := by
      rw [← h.directories.here]
      exact h.directories.leadsTo_iff.mpr hq
    rw [names_join hother, isAbsolute_join hother, walk_append_of_ok hq, walk_append_of_ok he,
      walk_singleton_congr hother (h.find?_eq hq)]

namespace ChangesOnly

/-- A change can be read backwards. -/
theorem symm (h : ChangesOnly dir touched d e) : ChangesOnly dir touched e d where
  directories := h.directories.symm
  changed := by
    intro place hne
    obtain ⟨q, name, hname, hq, hplace⟩ := h.changed place (Ne.symm hne)
    exact ⟨q, name, hname, h.directories.leadsTo_iff.mpr hq, hplace⟩

/-- Nothing has changed between disks that are the same at every place. -/
theorem of_find?_eq (hhere : e.here = d.here) (h : ∀ place, e.find? place = d.find? place) :
    ChangesOnly dir touched d e where
  directories := ⟨hhere, fun place ↦ by rw [isDirectoryAt, isDirectoryAt, h]⟩
  changed := fun place hne ↦ absurd (h place) hne

end ChangesOnly

/-! ## Faults -/

/-- A file cannot be written where its path leads nowhere, or to a directory. -/
theorem write_eq_error_iff : d.write path content = .error fault ↔
    d.resolve path = .error fault ∨
      ∃ p, d.resolve path = .ok p ∧ d.isDirectoryAt p = true ∧ fault = .isDirectory := by
  simp only [write, bind, Except.bind]
  cases d.resolve path with
  | error found => simp
  | ok p =>
    by_cases hdir : d.isDirectoryAt p = true
    · simpa [hdir] using eq_comm
    · simp [hdir, pure, Except.pure]

/-- A file that can be read cannot be moved where its new path leads nowhere, or to a directory. -/
theorem rename_eq_error_iff (h : d.read source = .ok content) :
    d.rename source target = .error fault ↔ d.resolve target = .error fault ∨
      ∃ goal, d.resolve target = .ok goal ∧ d.isDirectoryAt goal = true ∧
        fault = .isDirectory := by
  obtain ⟨p, hp, hfind, hlast⟩ := read_eq_ok_iff.mp h
  have hlook : d.look source = .ok (.file content) := by
    simp [look, hp, hfind, hlast, bind, Except.bind, pure, Except.pure]
  simp only [rename, hlook, hp, bind, Except.bind]
  cases d.resolve target with
  | error found => simp
  | ok goal =>
    by_cases hdir : d.isDirectoryAt goal = true
    · simpa [hdir] using eq_comm
    · simp [hdir, pure, Except.pure]

namespace SamePaths

/-- A file that cannot be written on one disk cannot be written on the other. -/
theorem write_error (h : SamePaths dir d e) (hplain : IsPlain name)
    (hd : d.write (join dir name) content = .error fault) :
    e.write (join dir name) content = .error fault := by
  rw [write_eq_error_iff] at hd ⊢
  simpa only [h.resolve_eq name hplain, h.isDirectoryAt] using hd

/-- Whether a file can be written, and why not, does not depend on what is written to it. -/
theorem map_write (h : SamePaths dir d e) (hplain : IsPlain name) (content content' : Text.Bytes) :
    (e.write (join dir name) content').map (fun _ ↦ ()) =
      (d.write (join dir name) content).map fun _ ↦ () := by
  simp only [write, bind, Except.bind, h.resolve_eq name hplain, h.isDirectoryAt]
  cases d.resolve (join dir name) with
  | error found => rfl
  | ok p => by_cases hdir : d.isDirectoryAt p = true <;> simp [hdir, pure, Except.pure, Except.map]

/-- A move of the same file that fails on one disk fails on the other in the same way. -/
theorem rename_error (h : SamePaths dir d e) (hplain : IsPlain other)
    (hread : d.read source = .ok content) (hread' : e.read source = .ok content)
    (hd : d.rename source (join dir other) = .error fault) :
    e.rename source (join dir other) = .error fault := by
  rw [rename_eq_error_iff hread] at hd
  rw [rename_eq_error_iff hread']
  simpa only [h.resolve_eq other hplain, h.isDirectoryAt] using hd

end SamePaths

/-! ## Files of certain names -/

/-- Disks on which the files of certain names in a directory are the same. -/
structure Alike (dir : String) (named : String → Prop) (d e : Disk) : Prop
    extends SamePaths dir d e where
  find?_eq : ∀ q name, named name → d.LeadsTo dir q →
    e.find? (q ++ [name]) = d.find? (q ++ [name])

namespace Alike

/-- A disk has the files of itself. -/
theorem refl (d : Disk) : Alike dir named d d := ⟨.refl d, fun _ _ _ _ ↦ rfl⟩

/-- That two disks have the same files goes both ways. -/
theorem symm (h : Alike dir named d e) : Alike dir named e d := by
  refine ⟨h.toSamePaths.symm, fun q name hname hq ↦ ?_⟩
  exact (h.find?_eq q name hname (h.leadsTo_iff.mp hq)).symm

/-- Disks that have the files of one have those of each other. -/
theorem trans (h : Alike dir named d e) (k : Alike dir named e f) : Alike dir named d f := by
  refine ⟨h.toSamePaths.trans k.toSamePaths, fun q name hname hq ↦ ?_⟩
  rw [k.find?_eq q name hname (h.leadsTo_iff.mpr hq), h.find?_eq q name hname hq]

/-- What changes on both disks in the same way leaves them alike. -/
theorem of_change (h : Alike dir named d e) (hd : SamePaths dir d d') (he : SamePaths dir e e')
    (hchange : ∀ place, e.find? place = d.find? place → e'.find? place = d'.find? place) :
    Alike dir named d' e' := by
  refine ⟨(hd.symm.trans h.toSamePaths).trans he, fun q name hname hq ↦ ?_⟩
  exact hchange _ (h.find?_eq q name hname (hd.leadsTo_iff.mp hq))

/-- A file that is written to both disks is the same on both. -/
theorem write_ok (h : Alike dir named d e) (hplain : IsPlain name)
    (hd : d.write (join dir name) content = .ok d') :
    ∃ e', e.write (join dir name) content = .ok e' ∧ Alike dir named d' e' := by
  obtain ⟨p, hp, hdir, rfl⟩ := write_eq_ok_iff.mp hd
  have he : e.write (join dir name) content = .ok (e.put p (.file content)) :=
    write_eq_ok_iff.mpr
      ⟨p, by rw [h.resolve_eq name hplain, hp], by rw [h.isDirectoryAt, hdir], rfl⟩
  refine ⟨_, he, h.of_change (changesOnly_write hplain hd).samePaths
    (changesOnly_write hplain he).samePaths ?_⟩
  intro place hplace
  by_cases hself : place = p
  · rw [hself, find?_put_self (ne_nil_of_not_directory hdir),
      find?_put_self (ne_nil_of_not_directory hdir)]
  · rw [find?_put_of_ne _ hself, find?_put_of_ne _ hself, hplace]

/-- A file that is moved on both disks is the same on both. -/
theorem rename_ok (h : Alike dir named d e) (hplain : IsPlain name) (hplain' : IsPlain other)
    (hread : d.read (join dir name) = .ok content) (hread' : e.read (join dir name) = .ok content)
    (hd : d.rename (join dir name) (join dir other) = .ok d') :
    ∃ e', e.rename (join dir name) (join dir other) = .ok e' ∧ Alike dir named d' e' := by
  obtain ⟨p, goal, hp, hfind, hgoal, hdir, rfl⟩ := (rename_eq_ok_iff hread).mp hd
  have hp' : e.resolve (join dir name) = .ok p := by rw [h.resolve_eq name hplain, hp]
  have hfind' : e.find? p = some (.file content) := by
    obtain ⟨found, hfound, hfind', -⟩ := read_eq_ok_iff.mp hread'
    obtain rfl : p = found := Except.ok.inj (hp'.symm.trans hfound)
    exact hfind'
  have he : e.rename (join dir name) (join dir other) =
      .ok ((e.erase p).put goal (.file content)) :=
    (rename_eq_ok_iff hread').mpr ⟨p, goal, hp', hfind',
      by rw [h.resolve_eq other hplain', hgoal], by rw [h.isDirectoryAt, hdir], rfl⟩
  refine ⟨_, he, h.of_change (changesOnly_rename hplain hplain' hread hd).samePaths
    (changesOnly_rename hplain hplain' hread' he).samePaths ?_⟩
  intro place hplace
  by_cases htarget : place = goal
  · rw [htarget, find?_put_self (ne_nil_of_not_directory hdir),
      find?_put_self (ne_nil_of_not_directory hdir)]
  · rw [find?_put_of_ne _ htarget, find?_put_of_ne _ htarget]
    by_cases hsource : place = p
    · have hne : p ≠ [] := by
        rintro rfl
        simp at hfind
      rw [hsource, find?_erase_self hne, find?_erase_self hne]
    · rw [find?_erase_of_ne hsource, find?_erase_of_ne hsource, hplace]

/-- Disks that have the same files under each of some names have them under all. -/
theorem of_forall {named : Nat → String → Prop} (h : ∀ i, Alike dir (named i) d e) :
    Alike dir (fun name ↦ ∃ i, named i name) d e := by
  refine ⟨(h 0).toSamePaths, fun q name hname hq ↦ ?_⟩
  obtain ⟨i, hname⟩ := hname
  exact (h i).find?_eq q name hname hq

/-- Disks that are alike for all names of files that have changed on one of them are the same at
every place. -/
theorem find?_eq_of_changesOnly (h : Alike dir named d e) (hd : ChangesOnly dir named f d)
    (he : ChangesOnly dir named f e) (place : Place) : e.find? place = d.find? place := by
  by_cases hsame : d.find? place = f.find? place
  · by_cases hsame' : e.find? place = f.find? place
    · rw [hsame, hsame']
    · obtain ⟨q, name, hname, hq, rfl⟩ := he.changed place hsame'
      exact h.find?_eq q name hname (hd.directories.leadsTo_iff.mpr hq)
  · obtain ⟨q, name, hname, hq, rfl⟩ := hd.changed place hsame
    exact h.find?_eq q name hname (hd.directories.leadsTo_iff.mpr hq)

end Alike

/-- Disks that differ in files of other names only are alike. -/
theorem ChangesOnly.alike (h : ChangesOnly dir touched d e)
    (hother : ∀ name, named name → ¬ touched name) : Alike dir named d e := by
  refine ⟨h.samePaths, fun q name hname hq ↦ ?_⟩
  by_cases hsame : e.find? (q ++ [name]) = d.find? (q ++ [name])
  · exact hsame
  · obtain ⟨q', name', htouched, -, hplace⟩ := h.changed _ hsame
    obtain ⟨-, hnames⟩ := List.append_inj' hplace rfl
    obtain rfl : name = name' := by simpa using hnames
    exact absurd htouched (hother name hname)

end Harvest.Disk
