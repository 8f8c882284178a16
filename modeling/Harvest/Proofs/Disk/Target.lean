import Harvest.Proofs.Disk.Change

/-!
# What a path stands for by its names alone

There are no links on a disk, so the names of a path tell where it leads, if it leads anywhere: ".."
goes one step up, and any other name one step down. So they tell too where directories can be made
on the way of a path, and whether a path that is joined to a directory stays below it.
-/

namespace Harvest.Disk

variable {d e f : Disk} {p place start : Place} {path dir name : String}
  {steps first below : List String} {paths more : List String}

/-! ## Targets -/

/-- Where a name leads from a place. -/
def onward (place : Place) (name : String) : Place :=
  if name = "." then place else if name = ".." then place.dropLast else place ++ [name]

/-- The place that a path starts from. -/
def origin (d : Disk) (path : String) : Place := if isAbsolute path then [] else d.here

/-- The place that a path stands for, whether it can be reached or not. -/
def target (d : Disk) (path : String) : Place := (names path).foldl onward (d.origin path)

/-- The places that a path comes by. -/
def OnWay (d : Disk) (path : String) (place : Place) : Prop :=
  ∃ steps, steps <+: names path ∧ place = steps.foldl onward (d.origin path)

/-- A walk goes on from where its first name leads. -/
theorem walk_onward (h : d.walk place (name :: steps) = .ok p) :
    d.walk (onward place name) steps = .ok p := by
  obtain ⟨-, hrest⟩ := walk_cons_eq_ok_iff.mp h
  rw [onward]
  split at hrest
  · next hdot => rwa [if_pos hdot]
  · next hdot =>
    rw [if_neg hdot]
    split at hrest
    · next hdots => rwa [if_pos hdots]
    · next hdots =>
      rw [if_neg hdots]
      split at hrest
      · simp at hrest
      · exact hrest

/-- Walks go where the names lead. -/
theorem eq_foldl_of_walk (h : d.walk place steps = .ok p) : p = steps.foldl onward place := by
  induction steps generalizing place with
  | nil => simpa [walk] using h.symm
  | cons name steps ih => exact ih (walk_onward h)

/-- A path that leads somewhere leads to what it stands for. -/
theorem eq_target_of_resolve (h : d.resolve path = .ok p) : p = d.target path := by
  obtain ⟨-, -, -, hwalk⟩ := resolve_eq_ok_iff.mp h
  exact eq_foldl_of_walk hwalk

/-- A directory that is reached is the one that its path leads to. -/
theorem LeadsTo.eq_target (h : d.LeadsTo dir p) : p = d.target dir := eq_foldl_of_walk h

/-- What a path stands for depends on the working directory only. -/
theorem target_congr (h : e.here = d.here) (path : String) : e.target path = d.target path := by
  rw [target, target, origin, origin, h]

/-- A path that is joined to a directory goes on from there. -/
theorem target_join (h : isAbsolute path = false) :
    d.target (join dir path) = (names path).foldl onward (d.target dir) := by
  rw [target, names_join_of_relative h, List.foldl_append, origin, isAbsolute_join_of_relative h]
  rfl

/-- A path that starts at the root is not held back by a directory. -/
theorem join_of_absolute (h : isAbsolute path = true) : join dir path = path := by
  simp [join, h]

/-- The way of a path that is joined to a directory is the way of the directory, and then its own
from there. -/
theorem onWay_join (h : isAbsolute path = false) (hway : d.OnWay (join dir path) place) :
    d.OnWay dir place ∨
      ∃ steps, steps <+: names path ∧ place = steps.foldl onward (d.target dir) := by
  have horigin : d.origin (join dir path) = d.origin dir := by
    rw [origin, origin, isAbsolute_join_of_relative h]
  obtain ⟨steps, hsteps, rfl⟩ := hway
  rw [names_join_of_relative h] at hsteps
  rw [horigin]
  obtain hshort | ⟨further, rfl⟩ :=
    List.prefix_or_prefix_of_prefix hsteps (List.prefix_append _ _)
  · exact .inl ⟨steps, hshort, rfl⟩
  · refine .inr ⟨further, (List.prefix_append_right_inj _).mp hsteps, ?_⟩
    rw [List.foldl_append]
    rfl

/-! ## Paths above a path -/

/-- Names that stay where they are can be left out. -/
private theorem foldl_onward_filter (steps : List String) (start : Place) :
    (steps.filter (· ≠ ".")).foldl onward start = steps.foldl onward start := by
  induction steps generalizing start with
  | nil => rfl
  | cons name steps ih =>
    by_cases hname : name = "."
    · simp only [hname, List.foldl_cons, onward, if_pos]
      simpa using ih start
    · simpa [hname] using ih (onward start name)

/-- What names lead to without those that stay where they are is on their way. -/
private theorem exists_prefix_of_filter (start : Place)
    (h : first <+: steps.filter (· ≠ ".")) :
    ∃ whole, whole <+: steps ∧ first.foldl onward start = whole.foldl onward start := by
  obtain ⟨tail, htail⟩ := h
  obtain ⟨whole, others, rfl, rfl, -⟩ := List.filter_eq_append_iff.mp htail.symm
  exact ⟨whole, List.prefix_append _ _, foldl_onward_filter whole start⟩

/-- The first components of a path lead to a place on its way. -/
theorem onWay_of_prefix_components (h : first <+: components path) :
    d.OnWay path (first.foldl onward (d.origin path)) := by
  rw [components] at h
  split at h
  · next hnames =>
    obtain rfl : first = [] := by simpa using h
    exact ⟨[], List.nil_prefix, rfl⟩
  · next name rest hnames =>
    -- Of the components, all but the first are the names without dots.
    rw [OnWay, hnames]
    split at h
    · next hdot =>
      obtain ⟨steps, hsteps, hfold⟩ := exists_prefix_of_filter (d.origin path) h
      refine ⟨name :: steps, List.cons_prefix_cons.mpr ⟨rfl, hsteps⟩, ?_⟩
      rw [hfold, List.foldl_cons, onward, if_pos hdot.1]
    · cases first with
      | nil => exact ⟨[], List.nil_prefix, rfl⟩
      | cons other behind =>
        obtain ⟨rfl, hbehind⟩ := List.cons_prefix_cons.mp h
        obtain ⟨steps, hsteps, hfold⟩ :=
          exists_prefix_of_filter (onward (d.origin path) other) hbehind
        exact ⟨other :: steps, List.cons_prefix_cons.mpr ⟨rfl, hsteps⟩, hfold⟩

/-- The names of a path are not empty and hold no slash. -/
theorem of_mem_names (h : name ∈ names path) : name ≠ "" ∧ '/' ∉ name.toList := by
  obtain ⟨part, hpart, rfl⟩ := List.mem_map.mp h
  obtain ⟨hsplit, hne⟩ := List.mem_filter.mp hpart
  refine ⟨by simpa using hne, fun hslash ↦ ?_⟩
  have hfree := Text.not_of_mem_splitWhere hsplit '/' (by simpa using hslash)
  simp at hfree

private theorem mem_names_of_mem_components (h : name ∈ components path) : name ∈ names path := by
  rw [components] at h
  split at h
  · simp at h
  · next hnames =>
    rw [hnames]
    split at h
    · exact List.mem_cons_of_mem _ (List.mem_filter.mp h).1
    · exact (List.mem_cons.mp h).elim (fun hfirst ↦ hfirst ▸ List.mem_cons_self)
        fun hrest ↦ List.mem_cons_of_mem _ (List.mem_filter.mp hrest).1

/-- Names with slashes between them are the names of what they make. -/
theorem names_intercalate (h : ∀ name ∈ steps, name ≠ "" ∧ '/' ∉ name.toList) :
    names ("/".intercalate steps) = steps := by
  induction steps with
  | nil => rfl
  | cons name steps ih =>
    obtain ⟨hname, hsteps⟩ := List.forall_mem_cons.mp h
    cases steps with
    | nil => rw [String.intercalate_singleton, names_of_not_mem hname.1 hname.2]
    | cons next steps =>
      rw [String.intercalate_cons_cons, names_append_slash, names_of_not_mem hname.1 hname.2,
        ih hsteps]
      rfl

/-- A path that is put together from components stands for where they lead. -/
theorem target_pathOf (h : ∀ name ∈ steps, name ≠ "" ∧ '/' ∉ name.toList) (hne : steps ≠ []) :
    d.target (pathOf (isAbsolute path) steps) = steps.foldl onward (d.origin path) := by
  cases habsolute : isAbsolute path with
  | true =>
    have hpath : pathOf true steps = "" ++ "/" ++ "/".intercalate steps := rfl
    have hstart : isAbsolute (pathOf true steps) = true := by simp [hpath, isAbsolute]
    rw [target, origin, origin, habsolute, hstart, hpath, names_append_slash, names_intercalate h]
    rfl
  | false =>
    have hpath : pathOf false steps = "/".intercalate steps := String.empty_append
    have hstart : isAbsolute ("/".intercalate steps) = false := by
      cases steps with
      | nil => exact absurd rfl hne
      | cons name rest =>
        obtain ⟨⟨hname, hslash⟩, -⟩ := List.forall_mem_cons.mp h
        have hfirst := isAbsolute_of_not_mem hslash
        cases rest with
        | nil => rw [String.intercalate_singleton, hfirst]
        | cons next rest =>
          rw [String.intercalate_cons_cons, String.append_assoc, isAbsolute_append hname, hfirst]
    rw [target, origin, origin, habsolute, hpath, hstart, names_intercalate h]

/-- The paths above a path stand for places on its way. -/
theorem onWay_of_mem_ancestors {above : String} (h : above ∈ ancestors path) :
    d.OnWay path (d.target above) := by
  simp only [ancestors] at h
  split at h
  · simp at h
  · obtain rfl | hparent := List.mem_cons.mp h
    · exact ⟨names above, List.prefix_rfl, rfl⟩
    · obtain ⟨n, hn, rfl⟩ := List.mem_map.mp hparent
      have hlt : n < (components path).length - 1 := by simpa using hn
      rw [target_pathOf]
      · exact onWay_of_prefix_components (List.take_prefix _ _)
      · exact fun name hname ↦
          of_mem_names (mem_names_of_mem_components (List.mem_of_mem_take hname))
      · intro hnil
        have hlength := congrArg List.length hnil
        rw [List.length_take, List.length_nil] at hlength
        omega

/-! ## Directories that are made -/

/-- Nothing has changed but that missing directories were made, where some paths lead. -/
structure MakesOnly (paths : List String) (d e : Disk) : Prop where
  here : e.here = d.here
  changed : ∀ place, e.find? place ≠ d.find? place → d.find? place = none ∧
    e.find? place = some .directory ∧ ∃ path ∈ paths, place = d.target path

namespace MakesOnly

private theorem refl (d : Disk) : MakesOnly paths d d := ⟨rfl, fun _ h ↦ absurd rfl h⟩

private theorem mono (h : MakesOnly paths d e) (hmore : paths ⊆ more) : MakesOnly more d e where
  here := h.here
  changed := by
    intro place hne
    obtain ⟨hmissing, hmade, path, hpath, hplace⟩ := h.changed place hne
    exact ⟨hmissing, hmade, path, hmore hpath, hplace⟩

private theorem trans (h : MakesOnly paths d e) (k : MakesOnly paths e f) :
    MakesOnly paths d f where
  here := k.here.trans h.here
  changed := by
    intro place hne
    by_cases hsame : f.find? place = e.find? place
    · rw [hsame] at hne ⊢
      exact h.changed place hne
    · obtain ⟨hmissing, hmade, path, hpath, hplace⟩ := k.changed place hsame
      -- A directory that was made before is not missing.
      have hbefore : e.find? place = d.find? place := by
        refine Classical.byContradiction fun hother ↦ ?_
        have hfound := (h.changed place hother).2.1
        rw [hmissing] at hfound
        simp at hfound
      exact ⟨hbefore ▸ hmissing, hmade, path, hpath, hplace.trans (target_congr h.here path)⟩

end MakesOnly

private theorem makesOnly_makeDirectory (h : d.makeDirectory path = .ok e) :
    MakesOnly [path] d e := by
  simp only [makeDirectory, bind, Except.bind] at h
  split at h
  · simp at h
  · next place hplace =>
    split at h
    · simp at h
    · next hmissing =>
      obtain rfl : d.put place .directory = e := by simpa [pure, Except.pure] using h
      have hne : place ≠ [] := by
        rintro rfl
        simp at hmissing
      refine ⟨rfl, fun other hother ↦ ?_⟩
      obtain rfl : other = place :=
        Classical.byContradiction fun hdiffers ↦ hother (find?_put_of_ne _ hdiffers)
      exact ⟨hmissing, find?_put_self hne, path, List.mem_singleton_self _,
        eq_target_of_resolve hplace⟩

/-- However many of the directories can be made, nothing else changes. -/
theorem makesOnly_makeFirst (d : Disk) (paths : List String) :
    MakesOnly paths d (d.makeFirst paths).2 := by
  induction paths generalizing d with
  | nil => exact .refl d
  | cons path parents ih =>
    have hlast {d e : Disk} (h : d.makeDirectory path = .ok e) : MakesOnly (path :: parents) d e :=
      (makesOnly_makeDirectory h).mono (by simp)
    cases hfirst : d.makeDirectory path with
    | ok made =>
      simp only [makeFirst, hfirst]
      exact hlast hfirst
    | error fault =>
      cases fault with
      | notFound =>
        have habove := (ih d).mono (List.subset_cons_self path parents)
        cases hparents : d.makeFirst parents with
        | mk result above =>
          rw [hparents] at habove
          cases result with
          | error fault =>
            simp only [makeFirst, hfirst, hparents]
            exact habove
          | ok =>
            cases hsecond : above.makeDirectory path with
            | ok made =>
              simp only [makeFirst, hfirst, hparents, hsecond]
              exact habove.trans (hlast hsecond)
            | error fault =>
              simp only [makeFirst, hfirst, hparents, hsecond]
              exact habove
      | _ =>
        simp only [makeFirst, hfirst]
        exact .refl d

/-- To make a directory with what is missing above it makes missing directories on its way. -/
theorem makeDirectories_makes (d : Disk) (path : String) :
    (d.makeDirectories path).2.here = d.here ∧
      ∀ place, (d.makeDirectories path).2.find? place ≠ d.find? place →
        d.OnWay path place ∧ d.find? place = none ∧
          (d.makeDirectories path).2.find? place = some .directory := by
  have hmakes := makesOnly_makeFirst d (ancestors path)
  refine ⟨hmakes.here, fun place hne ↦ ?_⟩
  obtain ⟨hmissing, hmade, above, habove, rfl⟩ := hmakes.changed place hne
  exact ⟨onWay_of_mem_ancestors habove, hmissing, hmade⟩

/-! ## Paths that stay below their start -/

/-- Whether names that start some steps below a place never lead above it. -/
def descends : Nat → List String → Bool
  | _, [] => true
  | depth, name :: rest =>
    if name = "." then descends depth rest
    else if name = ".." then depth != 0 && descends (depth - 1) rest
    else descends (depth + 1) rest

/-- Whether a path stays below every directory that it is joined to. -/
def staysBelow (path : String) : Bool := !isAbsolute path && descends 0 (names path)

/-- A name leads from below a place to below it, or it is the one that leads above it. -/
theorem onward_append (place : Place) (below : List String) (name : String) :
    below = [] ∧ name = ".." ∨ ∃ further, onward (place ++ below) name = place ++ further ∧
      ∀ steps, descends below.length (name :: steps) = descends further.length steps := by
  by_cases hdot : name = "."
  · exact .inr ⟨below, by rw [onward, if_pos hdot], fun steps ↦ by rw [descends, if_pos hdot]⟩
  · by_cases hdots : name = ".."
    · obtain rfl | ⟨upper, last, rfl⟩ := List.eq_nil_or_concat below
      · exact .inl ⟨rfl, hdots⟩
      · refine .inr ⟨upper, ?_, fun steps ↦ ?_⟩
        · rw [onward, if_neg hdot, if_pos hdots, List.concat_eq_append, ← List.append_assoc,
            List.dropLast_concat]
        · simp [descends, hdots]
    · refine .inr ⟨below ++ [name], ?_, fun steps ↦ ?_⟩
      · rw [onward, if_neg hdot, if_neg hdots, List.append_assoc]
      · simp [descends, hdot, hdots]

/-- Names that never lead above a place lead to a place below it. -/
theorem prefix_foldl_onward_append (h : descends below.length steps = true) :
    place <+: steps.foldl onward (place ++ below) := by
  induction steps generalizing below with
  | nil => exact List.prefix_append _ _
  | cons name steps ih =>
    rw [List.foldl_cons]
    obtain ⟨rfl, rfl⟩ | ⟨further, hname, hdescends⟩ := onward_append place below name
    · simp [descends] at h
    · rw [hname]
      rw [hdescends] at h
      exact ih h

private theorem prefix_foldl_onward (h : descends 0 steps = true) :
    place <+: steps.foldl onward place := by
  have hbelow : place <+: steps.foldl onward (place ++ []) := prefix_foldl_onward_append h
  rwa [List.append_nil] at hbelow

/-- Names that never lead above a place do not on their way either. -/
theorem descends_of_first (h : descends below.length steps = true) (hfirst : first <+: steps) :
    descends below.length first = true := by
  induction steps generalizing below first with
  | nil =>
    obtain rfl : first = [] := by simpa using hfirst
    exact h
  | cons name steps ih =>
    cases first with
    | nil => rfl
    | cons other first =>
      obtain ⟨rfl, hrest⟩ := List.cons_prefix_cons.mp hfirst
      obtain ⟨rfl, rfl⟩ | ⟨further, -, hdescends⟩ := onward_append [] below other
      · simp [descends] at h
      · rw [hdescends] at h ⊢
        exact ih h hrest

/-- Names do not lead below a place by themselves unless its last name is among them. -/
theorem not_prefix_foldl_onward (h : ¬ place ++ [name] <+: start) (hfresh : name ∉ steps) :
    ¬ place ++ [name] <+: steps.foldl onward start := by
  induction steps generalizing start with
  | nil => exact h
  | cons other steps ih =>
    obtain ⟨hother, hsteps⟩ := not_or.mp (mt List.mem_cons.mpr hfresh)
    refine ih (fun hbelow ↦ ?_) hsteps
    rw [onward] at hbelow
    split at hbelow
    · exact h hbelow
    · split at hbelow
      · exact h (hbelow.trans (List.dropLast_prefix start))
      · obtain heq | hshort := List.prefix_concat_iff.mp hbelow
        · exact hother (List.append_inj_right' heq rfl |> List.singleton_inj.mp)
        · exact h hshort

/-- Names that lead above a place do not lead back below it unless its last name is among them. -/
theorem not_prefix_of_not_descends (h : descends below.length steps = false)
    (hfresh : name ∉ steps) :
    ¬ place ++ [name] <+: steps.foldl onward (place ++ [name] ++ below) := by
  induction steps generalizing below with
  | nil => simp [descends] at h
  | cons other steps ih =>
    obtain ⟨-, hsteps⟩ := not_or.mp (mt List.mem_cons.mpr hfresh)
    rw [List.foldl_cons]
    obtain ⟨rfl, rfl⟩ | ⟨further, hother, hdescends⟩ := onward_append (place ++ [name]) below other
    · have habove : onward (place ++ [name] ++ []) ".." = place := by simp [onward]
      rw [habove]
      refine not_prefix_foldl_onward (fun hback ↦ ?_) hsteps
      have hlength := hback.length_le
      rw [List.length_append, List.length_singleton] at hlength
      omega
    · rw [hother]
      rw [hdescends] at h
      exact ih h hsteps

/-- A path that stays below its start stays below every directory that it is joined to. -/
theorem prefix_target_join (h : staysBelow path = true) :
    d.target dir <+: d.target (join dir path) := by
  rw [staysBelow, Bool.and_eq_true, Bool.not_eq_true'] at h
  rw [target_join h.1]
  exact prefix_foldl_onward h.2

/-- Any other path does only by a name that is the last one of the directory. -/
theorem not_prefix_target_join (h : staysBelow path = false)
    (hdir : (d.target dir).getLast? = some name) (hfresh : name ∉ names path) :
    ¬ d.target dir <+: d.target (join dir path) := by
  obtain ⟨place, hplace⟩ := List.getLast?_eq_some_iff.mp hdir
  rw [staysBelow, Bool.and_eq_false_iff, Bool.not_eq_false'] at h
  cases habsolute : isAbsolute path with
  | true =>
    rw [join_of_absolute habsolute, hplace, target, origin, if_pos habsolute]
    exact not_prefix_foldl_onward (by simp) hfresh
  | false =>
    have hdescends : descends 0 (names path) = false := by simpa [habsolute] using h
    have hnot : ¬ place ++ [name] <+: (names path).foldl onward (place ++ [name] ++ []) :=
      not_prefix_of_not_descends hdescends hfresh
    rwa [List.append_nil, ← hplace, ← target_join habsolute] at hnot

example : ["User", "a/../User", "./User"].all staysBelow = true ∧
    ["/User", "../User", "a/../../User"].any staysBelow = false := by decide +kernel

/-! ## Changes within a directory -/

/-- Whatever has changed lies within a directory, but for missing directories that were made on the
way to it. -/
def Inside (dir : String) (d e : Disk) : Prop :=
  ∀ place, e.find? place ≠ d.find? place → d.target dir <+: place ∨
    d.OnWay dir place ∧ d.find? place = none ∧ e.find? place = some .directory

/-- A path that stays below its start has its way there too, behind the way of the directory. -/
theorem onWay_or_prefix_of_staysBelow (h : staysBelow path = true)
    (hway : d.OnWay (join dir path) place) : d.OnWay dir place ∨ d.target dir <+: place := by
  rw [staysBelow, Bool.and_eq_true, Bool.not_eq_true'] at h
  obtain hdir | ⟨steps, hsteps, rfl⟩ := onWay_join h.1 hway
  · exact .inl hdir
  · have hfirst : descends ([] : List String).length steps = true := descends_of_first h.2 hsteps
    exact .inr (prefix_foldl_onward hfirst)

end Harvest.Disk
