import Harvest.Disk.Basic

/-!
# Where paths lead

A path leads through directories only, so where it leads depends on the directories of a disk and
not on its files. A plain name below a directory leads one step further than the directory.
-/

namespace Harvest.Disk

variable {d e f : Disk} {p : Place} {path dir name : String}

/-! ## Walks -/

/-- The root is a directory. -/
theorem isDirectoryAt_nil (d : Disk) : d.isDirectoryAt [] = true := rfl

/-- A walk goes on from a directory only. -/
theorem walk_cons_eq_ok_iff {place : Place} {rest : List String} :
    d.walk place (name :: rest) = .ok p ↔
      d.isDirectoryAt place = true ∧
        (if name = "." then d.walk place rest
          else if name = ".." then d.walk place.dropLast rest
          else if nameLimit < name.utf8ByteSize then .error .nameTooLong
          else d.walk (place ++ [name]) rest) = .ok p := by
  rw [walk, isDirectoryAt]
  split
  · next h => simp [h]
  · next h => simp [h]
  · next h => simp [h]

/-- A walk along names is a walk along the first of them, and on along the others. -/
theorem walk_append {place : Place} {first rest : List String} :
    d.walk place (first ++ rest) = .ok p ↔
      ∃ q, d.walk place first = .ok q ∧ d.walk q rest = .ok p := by
  induction first generalizing place with
  | nil => simp [walk]
  | cons name first ih =>
    rw [List.cons_append, walk_cons_eq_ok_iff]
    simp only [walk_cons_eq_ok_iff]
    by_cases hdir : d.isDirectoryAt place = true
    · simp only [hdir, true_and]
      split
      · exact ih
      · split
        · exact ih
        · split
          · simp
          · exact ih
    · simp [hdir]

/-- A name that a walk takes as it is: the name of something within the directory it has reached. -/
structure IsPlain (name : String) : Prop where
  ne_empty : name ≠ ""
  ne_dot : name ≠ "."
  ne_dots : name ≠ ".."
  no_slash : '/' ∉ name.toList

/-- A walk along a plain name ends below the directory that it starts from. -/
theorem walk_plain_iff (h : IsPlain name) {place : Place} : d.walk place [name] = .ok p ↔
    d.isDirectoryAt place = true ∧ name.utf8ByteSize ≤ nameLimit ∧ p = place ++ [name] := by
  rw [walk_cons_eq_ok_iff, if_neg h.ne_dot, if_neg h.ne_dots]
  refine and_congr_right fun _ ↦ ?_
  split
  · next hlong =>
    have hnot : ¬ name.utf8ByteSize ≤ nameLimit := Nat.not_le.mpr hlong
    simp [hnot]
  · next hshort =>
    have hle : name.utf8ByteSize ≤ nameLimit := Nat.le_of_not_lt hshort
    simp [walk, hle, eq_comm (a := p)]

/-- A path leads somewhere where it is well formed and its names do. -/
theorem resolve_eq_ok_iff : d.resolve path = .ok p ↔
    '\x00' ∉ path.toList ∧ path ≠ "" ∧ path.utf8ByteSize ≤ pathLimit ∧
      d.walk (if isAbsolute path then [] else d.here) (names path) = .ok p := by
  rw [resolve]
  split
  · next hzero =>
    have hmem : '\x00' ∈ path.toList := by simpa using hzero
    simp [hmem]
  · next hzero =>
    have hmem : '\x00' ∉ path.toList := by simpa using hzero
    split
    · next hempty =>
      have heq : path = "" := by simpa using hempty
      simp [heq]
    · next hempty =>
      have hne : path ≠ "" := by simpa using hempty
      split
      · next hlong =>
        have hnot : ¬ path.utf8ByteSize ≤ pathLimit := Nat.not_le.mpr hlong
        simp [hnot]
      · next hshort =>
        have hle : path.utf8ByteSize ≤ pathLimit := Nat.le_of_not_lt hshort
        simp [hmem, hne, hle]

/-! ## Disks with the same directories -/

/-- Disks with the same directories, and the same one to start from. -/
structure SameDirectories (d e : Disk) : Prop where
  here : e.here = d.here
  isDirectoryAt : ∀ place, e.isDirectoryAt place = d.isDirectoryAt place

namespace SameDirectories

/-- A disk has its own directories. -/
theorem refl (d : Disk) : SameDirectories d d := ⟨rfl, fun _ ↦ rfl⟩

/-- Disks with the directories of one have those of each other. -/
theorem trans (h : SameDirectories d e) (k : SameDirectories e f) : SameDirectories d f :=
  ⟨k.here.trans h.here, fun place ↦ (k.isDirectoryAt place).trans (h.isDirectoryAt place)⟩

/-- Walks lead to the same places. -/
theorem walk_iff (h : SameDirectories d e) {place : Place} {names : List String} :
    e.walk place names = .ok p ↔ d.walk place names = .ok p := by
  induction names generalizing place with
  | nil => simp [walk]
  | cons name rest ih =>
    rw [walk_cons_eq_ok_iff, walk_cons_eq_ok_iff, h.isDirectoryAt]
    refine and_congr_right fun _ ↦ ?_
    split
    · exact ih
    · split
      · exact ih
      · split
        · rfl
        · exact ih

/-- Paths lead to the same places. -/
theorem resolve_iff (h : SameDirectories d e) :
    e.resolve path = .ok p ↔ d.resolve path = .ok p := by
  rw [resolve_eq_ok_iff, resolve_eq_ok_iff, h.here, h.walk_iff]

end SameDirectories

/-- What is no directory is not at the root. -/
theorem ne_nil_of_not_directory (h : d.isDirectoryAt p = false) : p ≠ [] := by
  rintro rfl
  simp [isDirectoryAt_nil] at h

/-- A change at a place that is no directory, before or after, keeps the directories. -/
theorem sameDirectories_of_change (hhere : e.here = d.here) (hd : d.isDirectoryAt p = false)
    (he : e.isDirectoryAt p = false) (hother : ∀ place, place ≠ p → e.find? place = d.find? place) :
    SameDirectories d e := by
  refine ⟨hhere, fun place ↦ ?_⟩
  by_cases hp : place = p
  · rw [hp, hd, he]
  · rw [isDirectoryAt, isDirectoryAt, hother place hp]

/-- Putting a file where there is no directory keeps the directories. -/
theorem sameDirectories_put {content : Text.Bytes} (h : d.isDirectoryAt p = false) :
    SameDirectories d (d.put p (.file content)) := by
  have hput : (d.put p (.file content)).isDirectoryAt p = false := by
    rw [isDirectoryAt, find?_put_self (ne_nil_of_not_directory h)]
    rfl
  exact sameDirectories_of_change rfl h hput fun _ hp ↦ find?_put_of_ne _ hp

/-- Removing what is no directory keeps the directories. -/
theorem sameDirectories_erase (h : d.isDirectoryAt p = false) : SameDirectories d (d.erase p) := by
  have herase : (d.erase p).isDirectoryAt p = false := by
    rw [isDirectoryAt, find?_erase_self (ne_nil_of_not_directory h)]
    rfl
  exact sameDirectories_of_change rfl h herase fun _ hp ↦ find?_erase_of_ne hp

/-! ## Plain names below a directory -/

/-- The names of two paths with a slash between them. -/
theorem names_append_slash (a b : String) : names (a ++ "/" ++ b) = names a ++ names b := by
  have hchars : (a ++ "/" ++ b).toList = a.toList ++ '/' :: b.toList := by simp
  rw [names, hchars, Text.splitAt_append_cons, List.filter_append, List.map_append]
  rfl

/-- A text without a slash is its own only name. -/
theorem names_of_not_mem (hne : name ≠ "") (h : '/' ∉ name.toList) : names name = [name] := by
  rw [names, Text.splitAt_of_not_mem h]
  simp [hne]

/-- A plain name is its own only name. -/
theorem names_plain (h : IsPlain name) : names name = [name] :=
  names_of_not_mem h.ne_empty h.no_slash

/-- A text without a slash does not start at the root. -/
theorem isAbsolute_of_not_mem (h : '/' ∉ name.toList) : isAbsolute name = false := by
  cases hc : name.toList with
  | nil => simp [isAbsolute, hc]
  | cons c cs =>
    have hne : c ≠ '/' := by
      rintro rfl
      exact h (by simp [hc])
    simp [isAbsolute, hc, hne]

/-- A plain name starts with no slash. -/
theorem isAbsolute_plain (h : IsPlain name) : isAbsolute name = false :=
  isAbsolute_of_not_mem h.no_slash

/-- A path that is joined to a directory, by how the directory ends. -/
theorem join_eq_of_relative (h : isAbsolute path = false) : join dir path =
    if dir = "" then path
    else if dir.toList.getLast? = some '/' then dir ++ path
    else dir ++ "/" ++ path := by
  simp [join, h]

/-- A path below a directory, by how the directory ends. -/
theorem join_eq (h : IsPlain name) : join dir name =
    if dir = "" then name
    else if dir.toList.getLast? = some '/' then dir ++ name
    else dir ++ "/" ++ name :=
  join_eq_of_relative (isAbsolute_plain h)

/-- A longer name below a directory makes a longer path. -/
theorem join_append {more : String} (h : IsPlain name) (hlonger : IsPlain (name ++ more)) :
    join dir (name ++ more) = join dir name ++ more := by
  rw [join_eq h, join_eq hlonger]
  split
  · rfl
  · split <;> simp only [String.append_assoc]

/-- A path below a directory ends with its plain name, and so not with a slash. -/
theorem getLast?_join (h : IsPlain name) : (join dir name).toList.getLast? ≠ some '/' := by
  have hends : ∃ before, (join dir name).toList = before ++ name.toList := by
    rw [join_eq h]
    split
    · exact ⟨[], rfl⟩
    · split
      · exact ⟨dir.toList, by simp⟩
      · exact ⟨dir.toList ++ ['/'], by simp⟩
  obtain ⟨before, hbefore⟩ := hends
  have hne : name.toList ≠ [] := by simpa using h.ne_empty
  rw [hbefore, List.getLast?_append, List.getLast?_eq_some_getLast hne, Option.some_or]
  intro hlast
  rw [Option.some.injEq] at hlast
  exact h.no_slash (hlast ▸ List.getLast_mem hne)

/-- What is behind a text does not change where it starts. -/
theorem isAbsolute_append (h : dir ≠ "") (behind : String) :
    isAbsolute (dir ++ behind) = isAbsolute dir := by
  have hchars : dir.toList ≠ [] := by simpa using h
  obtain ⟨c, cs, hdir⟩ := List.exists_cons_of_ne_nil hchars
  simp [isAbsolute, hdir]

/-- A path that is joined to a directory starts where the directory does. -/
theorem isAbsolute_join_of_relative (h : isAbsolute path = false) :
    isAbsolute (join dir path) = isAbsolute dir := by
  rw [join_eq_of_relative h]
  split
  · next hd => rw [hd, h]; rfl
  · next hd =>
    split
    · exact isAbsolute_append hd path
    · rw [String.append_assoc]
      exact isAbsolute_append hd _

/-- A path below a directory starts where the directory does. -/
theorem isAbsolute_join (h : IsPlain name) : isAbsolute (join dir name) = isAbsolute dir :=
  isAbsolute_join_of_relative (isAbsolute_plain h)

/-- A path that is joined to a directory has the names of the directory and then its own. -/
theorem names_join_of_relative (h : isAbsolute path = false) :
    names (join dir path) = names dir ++ names path := by
  rw [join_eq_of_relative h]
  split
  · next hd => rw [hd]; rfl
  · split
    · next hlast =>
      -- The slash at the end of the directory is the one before the path.
      obtain ⟨before, hbefore⟩ := List.getLast?_eq_some_iff.mp hlast
      have hdir : dir = String.ofList before ++ "/" ++ "" := by
        apply String.toList_injective
        simp [hbefore]
      have hjoin : dir ++ path = String.ofList before ++ "/" ++ path := by
        rw [hdir]
        simp
      rw [hjoin, names_append_slash, hdir, names_append_slash]
      simp [names, Text.splitAt, Text.splitWhere]
    · rw [names_append_slash]

/-- A path below a directory has the names of the directory and one more. -/
theorem names_join (h : IsPlain name) : names (join dir name) = names dir ++ [name] := by
  rw [names_join_of_relative (isAbsolute_plain h), names_plain h]

/-- A path below a directory is not empty. -/
theorem join_ne_empty (h : IsPlain name) : join dir name ≠ "" := by
  intro hempty
  have hnames : names (join dir name) = names dir ++ [name] := names_join h
  rw [hempty] at hnames
  simp [names, Text.splitAt, Text.splitWhere] at hnames

/-- A path below a directory leads one step further than the directory. -/
theorem resolve_join (h : IsPlain name) (hp : d.resolve (join dir name) = .ok p) :
    ∃ q, d.walk (if isAbsolute dir then [] else d.here) (names dir) = .ok q ∧
      d.isDirectoryAt q = true ∧ p = q ++ [name] := by
  obtain ⟨-, -, -, hwalk⟩ := resolve_eq_ok_iff.mp hp
  rw [names_join h, isAbsolute_join h] at hwalk
  obtain ⟨q, hq, hlast⟩ := walk_append.mp hwalk
  obtain ⟨hdir, -, hname⟩ := (walk_plain_iff h).mp hlast
  exact ⟨q, hq, hdir, hname⟩

end Harvest.Disk
