import Harvest.Proofs.Extraction.Confinement
import Harvest.Proofs.Extraction.Requests

/-!
# What an extraction leaves as it was

Besides missing directories on the way of its own, an extraction changes the files of pages that it
has been granted, their drafts and the manifest. All other files can be read as before: those of
pages that were not granted or not asked for, and those of other plans in the same directory.
-/

namespace Harvest

namespace Disk

variable {d e f : Disk} {p place : Place} {path dir name : String} {steps : List String}
  {content : Text.Bytes}

/-- A plain name that is joined to a directory stands for something within it. -/
theorem target_join_plain (h : IsPlain name) :
    d.target (join dir name) = d.target dir ++ [name] := by
  rw [target_join (isAbsolute_plain h), names_plain h, List.foldl_cons, onward, if_neg h.ne_dot,
    if_neg h.ne_dots, List.foldl_nil]

/-! ## Directories that stay -/

/-- All directories of a disk are directories of another one, which has the same one to start
from. -/
structure KeepsDirectories (d e : Disk) : Prop where
  here : e.here = d.here
  isDirectoryAt : ∀ place, d.isDirectoryAt place = true → e.isDirectoryAt place = true

namespace KeepsDirectories

/-- Where nothing but what was missing has changed, directories stay. -/
theorem of_missing (hhere : e.here = d.here)
    (h : ∀ place, e.find? place ≠ d.find? place → d.find? place = none) : KeepsDirectories d e := by
  refine ⟨hhere, fun place hdir ↦ ?_⟩
  have hsame : e.find? place = d.find? place := by
    by_contra hne
    simp [Disk.isDirectoryAt, h place hne] at hdir
  rwa [Disk.isDirectoryAt, hsame]

private theorem trans (h : KeepsDirectories d e) (k : KeepsDirectories e f) :
    KeepsDirectories d f :=
  ⟨k.here.trans h.here, fun place hdir ↦ k.isDirectoryAt place (h.isDirectoryAt place hdir)⟩

private theorem of_same (h : SameDirectories d e) : KeepsDirectories d e :=
  ⟨h.here, fun place hdir ↦ (h.isDirectoryAt place).trans hdir⟩

/-- Walks lead to the same places. -/
theorem walk (h : KeepsDirectories d e) (hwalk : d.walk place steps = .ok p) :
    e.walk place steps = .ok p := by
  induction steps generalizing place with
  | nil => exact hwalk
  | cons name rest ih =>
    rw [walk_cons_eq_ok_iff] at hwalk ⊢
    obtain ⟨hdir, hrest⟩ := hwalk
    refine ⟨h.isDirectoryAt place hdir, ?_⟩
    split_ifs at hrest ⊢
    · exact ih hrest
    · exact ih hrest
    · exact ih hrest

/-- A path that leads somewhere leads there afterwards. -/
theorem resolve (h : KeepsDirectories d e) (hpath : d.resolve path = .ok p) :
    e.resolve path = .ok p := by
  obtain ⟨hzero, hne, hlimit, hwalk⟩ := resolve_eq_ok_iff.mp hpath
  refine resolve_eq_ok_iff.mpr ⟨hzero, hne, hlimit, ?_⟩
  rw [h.here]
  exact h.walk hwalk

/-- A file that has not changed can be read as before. -/
theorem read (h : KeepsDirectories d e) (hread : d.read path = .ok content)
    (hsame : e.find? (d.target path) = d.find? (d.target path)) : e.read path = .ok content := by
  obtain ⟨p, hp, hfile, hlast⟩ := read_eq_ok_iff.mp hread
  rw [← eq_target_of_resolve hp] at hsame
  exact read_eq_ok_iff.mpr ⟨p, h.resolve hp, hsame.trans hfile, hlast⟩

end KeepsDirectories

end Disk

namespace Extraction

open Disk (ChangesOnly KeepsDirectories)
open Plan (IsPageName Split pageFileName)

variable {σ : Type} {x : Extraction σ} {s : Site σ} {p q : Pool σ} {splits : List Split}
  {turns more : List (Turn σ)} {turn : Turn σ} {d e : Disk} {i n workers available : Nat}
  {name : String}

/-! ## Pages that are granted -/

/-- Whether page `n` of split `i` of a plan has been granted in some turns. -/
def IsGranted (x : Extraction σ) (splits : List Split) (turns : List (Turn σ)) (i n : Nat) : Prop :=
  ∃ split page world response, splits[i]? = some split ∧ split.pages[n]? = some page ∧
    .fetched i page world ∈ turns ∧
    ((x.service.fetchPage page).run world).value = .ok response ∧ response.isSuccess = true

/-- The names of the files that an extraction writes in some turns, and behind them. -/
def IsWrittenName (x : Extraction σ) (splits : List Split) (turns : List (Turn σ))
    (name : String) : Prop :=
  name = Manifest.fileName ∨ ∃ i n, x.IsGranted splits turns i n ∧ IsPageName i n name

private theorem IsGranted.mono (h : x.IsGranted splits turns i n) (hmore : turns ⊆ more) :
    x.IsGranted splits more i n := by
  obtain ⟨split, page, world, response, hsplit, hpage, hturn, hanswer, hsuccess⟩ := h
  exact ⟨split, page, world, response, hsplit, hpage, hmore hturn, hanswer, hsuccess⟩

private theorem IsWrittenName.mono (h : x.IsWrittenName splits turns name) (hmore : turns ⊆ more) :
    x.IsWrittenName splits more name := by
  refine h.imp_right ?_
  rintro ⟨i, n, hgranted, hname⟩
  exact ⟨i, n, hgranted.mono hmore, hname⟩

/-- A worker that is about to write a page has been granted it. -/
theorem Sound.isGranted (h : Sound x splits turns p) {record : Manifest.Record}
    {pages : List Plan.Page} {body : Text.Bytes}
    (hjob : p.jobs[i]? = some (.writing record pages body)) :
    x.IsGranted splits turns i record.pages := by
  obtain ⟨split, hsplit, hagrees⟩ := h.agrees i _ hjob
  generalize hhappened : trail i turns = happened at hagrees
  cases hagrees with
  | @writing _ _ tries t response haccounts houtcome hrest hlength hanswer =>
    have htry : t ∈ (trail i turns).tries := by
      rw [hhappened]
      exact List.mem_concat_self
    rw [tries_trail, List.mem_map] at htry
    obtain ⟨⟨index, t⟩, hmem, rfl⟩ := htry
    obtain ⟨hcall, hindex⟩ := List.mem_filter.mp hmem
    obtain rfl : index = i := by simpa using hindex
    have hpage : split.pages[record.pages]? = some t.page := by
      rw [← List.head?_drop, hrest, List.head?_cons]
    exact ⟨split, t.page, t.world, response, hsplit, hpage, mem_tries.mp hcall, hanswer,
      ((t.moments_spec x).2 response hanswer).1⟩

/-! ## What turns change -/

/-- A worker changes files of the page only that it is about to write. -/
theorem Advances.changesOnly_written {job job' : Job} {site : Site σ}
    (h : Advances x s i job turn job' site)
    (hgranted : ∀ record pages body, job = .writing record pages body →
      x.IsGranted splits turns i record.pages) :
    ChangesOnly x.directory (x.IsWrittenName splits turns) s.disk site.disk := by
  cases h with
  | pass | begin | interrupt | ask | refuse | grant | finish => exact .refl _
  | spoil | save =>
    exact (writePage_changesOnly s).mono fun name hname ↦ .inr ⟨i, _, hgranted _ _ _ rfl, hname⟩

/-- A turn changes files of pages only that have been granted before it. -/
theorem Sound.changesOnly_takes (h : Sound x splits turns p) (htakes : Takes x p turn q) :
    ChangesOnly x.directory (x.IsWrittenName splits turns) p.site.disk q.site.disk := by
  cases htakes with
  | claim | retire => exact .refl _
  | advance hjob hadvances =>
    refine hadvances.changesOnly_written ?_
    rintro record pages body rfl
    exact h.isGranted hjob

/-- So do all turns. -/
theorem Works.changesOnly_granted (hworkers : 0 < workers)
    (h : Works x (.start s splits workers) turns p) :
    ChangesOnly x.directory (x.IsWrittenName splits turns) s.disk p.site.disk := by
  induction h with
  | refl => exact .refl _
  | snoc hworks htakes ih =>
    have hturn := (sound_of_works hworkers hworks).changesOnly_takes htakes
    exact (ih.trans hturn).mono fun name hname ↦ hname.mono (List.subset_append_left _ _)

/-! ## What stays as it was -/

/-- The ways in which an extraction changes what is at a place, in some turns and behind them. -/
inductive Alters (x : Extraction σ) (splits : List Split) (turns : List (Turn σ)) (d e : Disk)
    (place : Disk.Place) : Prop
  | made (hway : d.OnWay x.directory place) (hmissing : d.find? place = none)
      (hmade : e.find? place = some .directory)
  | written {name : String} (hname : x.IsWrittenName splits turns name)
      (hplace : place = d.target x.directory ++ [name])

/-- Whether an extraction has changed nothing in any other way, and all other files can be read as
before, those of pages that were not granted among them. -/
structure KeepsOthers (x : Extraction σ) (splits : List Split) (turns : List (Turn σ))
    (d e : Disk) : Prop where
  alters : ∀ place, e.find? place ≠ d.find? place → x.Alters splits turns d e place
  files : ∀ path content, d.read path = .ok content →
    (∀ name, x.IsWrittenName splits turns name →
      d.target path ≠ d.target x.directory ++ [name]) →
    e.read path = .ok content
  pages : ∀ i n content, ¬ x.IsGranted splits turns i n →
    d.read (pagePath x.directory i n) = .ok content →
    e.read (pagePath x.directory i n) = .ok content

/-- The file of a page is written only where the page is granted. -/
theorem isWrittenName_pageFileName :
    x.IsWrittenName splits turns (pageFileName i n) ↔ x.IsGranted splits turns i n := by
  constructor
  · rintro (hmanifest | ⟨j, m, hgranted, hname⟩)
    · exact absurd (.inl hmanifest.symm) Plan.not_isPageName_manifest
    · obtain ⟨rfl, rfl⟩ := Plan.isPageName_pageFileName.mp hname
      exact hgranted
  · exact fun hgranted ↦ .inr ⟨i, n, hgranted, .inl rfl⟩

/-- Where nothing is altered in another way, and directories stay, all other files can be read as
before. -/
theorem keepsOthers_of_alters (hkeeps : KeepsDirectories d e)
    (halters : ∀ place, e.find? place ≠ d.find? place → x.Alters splits turns d e place) :
    x.KeepsOthers splits turns d e := by
  have hfiles : ∀ path content, d.read path = .ok content →
      (∀ name, x.IsWrittenName splits turns name →
        d.target path ≠ d.target x.directory ++ [name]) →
      e.read path = .ok content := by
    intro path content hread hother
    refine hkeeps.read hread ?_
    by_contra hne
    cases halters _ hne with
    | made _ hmissing =>
      obtain ⟨place, hplace, hfile, -⟩ := Disk.read_eq_ok_iff.mp hread
      rw [Disk.eq_target_of_resolve hplace, hmissing] at hfile
      cases hfile
    | written hname hplace => exact hother _ hname hplace
  refine ⟨halters, hfiles, fun i n content hnot hread ↦ hfiles _ _ hread fun name hname hplace ↦ ?_⟩
  rw [pagePath, Disk.target_join_plain (Plan.isPlain_pageFileName i n)] at hplace
  obtain rfl : pageFileName i n = name := List.singleton_inj.mp (List.append_cancel_left hplace)
  exact hnot (isWrittenName_pageFileName.mp hname)

/-- Behind the preparation of its directory, an extraction keeps all others where it changes only
the files that it writes. -/
theorem keepsOthers_of_changesOnly
    (h : ChangesOnly x.directory (x.IsWrittenName splits turns) (x.prepared s).disk e) :
    x.KeepsOthers splits turns s.disk e := by
  obtain ⟨hhere, hmade⟩ := Disk.makeDirectories_makes s.disk x.directory
  have hprepared : (x.prepared s).disk = (s.disk.makeDirectories x.directory).2 := rfl
  rw [← hprepared] at hhere hmade
  have hkeeps : KeepsDirectories s.disk e :=
    (KeepsDirectories.of_missing hhere fun place hne ↦ (hmade place hne).2.1).trans
      (.of_same h.directories)
  refine keepsOthers_of_alters hkeeps fun place hne ↦ ?_
  by_cases hsame : e.find? place = (x.prepared s).disk.find? place
  · rw [hsame] at hne
    obtain ⟨hway, hmissing, hdirectory⟩ := hmade place hne
    exact .made hway hmissing (hsame.trans hdirectory)
  · obtain ⟨q, name, hname, hq, rfl⟩ := h.changed place hsame
    exact .written hname (by rw [hq.eq_target, Disk.target_congr hhere])

/-- However many workers take turns, and whenever it is looked at, an extraction has made missing
directories on its way and written files of pages that were granted before, and nothing else has
changed. Behind the turns it writes the manifest besides. A run that starts is an extraction by one
worker; where its directory cannot be made, or no pool be built, it fails, with no effect and no
file written before. -/
theorem keeps_others (x : Extraction σ) (available : Nat) (splits : List Split) (s : Site σ) :
    (∀ workers turns p, 0 < workers → Works x (.start (x.prepared s) splits workers) turns p →
      x.KeepsOthers splits turns s.disk p.site.disk ∧
      x.KeepsOthers splits turns s.disk (p.result x available s).state.disk) ∧
    (x.Starts splits s → ∃ turns p, x.Conducts splits s 1 turns p ∧
      let r := (x.run available splits).run s
      r.state = (p.result x available s).state ∧ Event.effects r.trace = effectsOf x turns ∧
      x.KeepsOthers splits turns s.disk r.state.disk) ∧
    (∀ fault, (x.prepare.run s).value = .error fault →
      let r := (x.run available splits).run s
      r.value = .error fault ∧ r.trace = [] ∧
      ∀ place, r.state.disk.find? place ≠ s.disk.find? place →
        s.disk.OnWay x.directory place ∧ s.disk.find? place = none ∧
          r.state.disk.find? place = some .directory) ∧
    ∀ detail, (x.prepare.run s).value = .ok () →
      x.buildPool (x.usefulWorkers splits.length) = .error detail →
      let r := (x.run available splits).run s
      r.value = .error (.workerPool detail) ∧ Event.effects r.trace = [] ∧
      ∀ place, r.state.disk.find? place ≠ s.disk.find? place →
        s.disk.OnWay x.directory place ∧ s.disk.find? place = none ∧
          r.state.disk.find? place = some .directory := by
  have hturns : ∀ workers turns p, 0 < workers →
      Works x (.start (x.prepared s) splits workers) turns p →
      x.KeepsOthers splits turns s.disk p.site.disk ∧
      x.KeepsOthers splits turns s.disk (p.result x available s).state.disk := by
    intro workers turns p hworkers hworks
    have hchange := hworks.changesOnly_granted hworkers
    have hmanifest := (conclude_changesOnly x (p.manifest x available s) p.site).mono
      fun name (hname : name = Manifest.fileName) ↦
        (.inl hname : x.IsWrittenName splits turns name)
    exact ⟨keepsOthers_of_changesOnly hchange, keepsOthers_of_changesOnly (hchange.trans hmanifest)⟩
  have hmade := (Disk.makeDirectories_makes s.disk x.directory).2
  refine ⟨hturns, fun hstarts ↦ ?_, fun fault hfault ↦ ?_, fun detail hprepare hbuild ↦ ?_⟩
  · obtain ⟨turns, p, hconducts, -, hstate, heffects⟩ := run_conducts hstarts available
    refine ⟨turns, p, hconducts, hstate, heffects, ?_⟩
    rw [hstate]
    exact (hturns 1 turns p Nat.one_pos hconducts.works).2
  · rw [run_of_prepare_error hfault]
    exact ⟨rfl, rfl, hmade⟩
  · rw [run_of_prepared hprepare]
    obtain ⟨hvalue, heffects, hstate⟩ := run_extract_of_error hbuild available (x.prepared s)
    refine ⟨hvalue, heffects, ?_⟩
    rw [hstate]
    exact hmade

/-- A site with page files of an earlier extraction, and statuses to come. -/
def visited (statuses : List Nat) : Site (List Nat) :=
  ⟨⟨statuses, none⟩, ⟨[(["User"], .directory), (["User", "split_0_page_0.json"], .file [1]),
    (["User", "split_1_page_0.json"], .file [2])], []⟩⟩

/-- A site where a file has the name of the directory. -/
def obstructed : Site (List Nat) := ⟨⟨[], none⟩, ⟨[(["User"], .file [1])], []⟩⟩

/-- An extraction for which no thread can be started. -/
def unstaffed : Extraction (List Nat) :=
  { unstopped with buildPool := fun _ ↦ .error "Resource temporarily unavailable (os error 11)" }

/-- A page that is refused leaves the file of an earlier extraction as it was, beside one that is
granted and takes its place. Where a file is in the way of the directory, or no worker can be had,
nothing is requested. -/
theorem keeps_others_refused :
    (∃ turns p, Works unstopped (.start (unstopped.prepared (visited [404, 200]))
        [⟨1, 1, 1⟩, ⟨2, 2, 1⟩] 2) turns p ∧
      (visited [404, 200]).disk.read "User/split_0_page_0.json" = .ok [1] ∧
      p.site.disk.read "User/split_0_page_0.json" = .ok [1] ∧
      p.site.disk.read "User/split_1_page_0.json" = .ok [52]) ∧
    ((unstopped.prepare.run obstructed).value = .error (.io Disk.Fault.taken.message) ∧
      ((unstopped.run 2 [⟨1, 1, 1⟩, ⟨2, 2, 1⟩]).run obstructed).trace = []) ∧
    (unstaffed.prepare.run (visited [200, 200])).value = .ok () ∧
      Event.effects ((unstaffed.run 2 [⟨1, 1, 1⟩, ⟨2, 2, 1⟩]).run (visited [200, 200])).trace =
        [] := by
  refine ⟨?_, ?_, ?_⟩
  · have hstart := Works.refl (x := unstopped)
      (p := .start (unstopped.prepared (visited [404, 200])) [⟨1, 1, 1⟩, ⟨2, 2, 1⟩] 2)
    have hclaimed := (hstart.snoc (.claim (by decide) rfl)).snoc (.claim (by decide) rfl)
    have hbegun := (hclaimed.snoc (.advance (i := 0) rfl (.begin rfl))).snoc
      (.advance (i := 1) rfl (.begin rfl))
    have hasked := (hbegun.snoc (.advance (i := 0)
        (show _ = some (.between (startRecord 0 ⟨1, 1, 1⟩) [⟨0, 1⟩]) from rfl) (.ask rfl))).snoc
      (.advance (i := 1) (show _ = some (.between (startRecord 1 ⟨2, 2, 1⟩) [⟨1, 1⟩]) from rfl)
        (.ask rfl))
    have hrefusal : ((unstopped.service.fetchPage ⟨0, 1⟩).run ⟨[404, 200], none⟩).value =
        .error (.unexpectedStatus "data page" 404 "4") := by decide +kernel
    have hrefused := hasked.snoc (.advance (i := 0) rfl (.refuse hrefusal))
    have hgranted := hrefused.snoc (.advance (i := 1) rfl
      (.grant (show _ = Except.ok ⟨200, "", none, [52]⟩ from by decide +kernel)))
    have hsaved := hgranted.snoc (.advance (i := 1) rfl (.save (by decide +kernel)))
    have hkeeps := ((keeps_others unstopped 2 [⟨1, 1, 1⟩, ⟨2, 2, 1⟩] (visited [404, 200])).1 2 _ _
      (by decide) hsaved).1
    refine ⟨_, _, hsaved, by decide +kernel, ?_, by decide +kernel⟩
    refine hkeeps.pages 0 0 [1] ?_ (by decide +kernel)
    rintro ⟨split, page, world, response, -, -, hturn, hanswer, -⟩
    -- The only call for a page of the first split is the one that was refused.
    simp only [List.mem_append, List.mem_singleton, List.not_mem_nil, false_or, or_false,
      reduceCtorEq, Turn.fetched.injEq, Nat.zero_ne_one, false_and, true_and] at hturn
    obtain ⟨rfl, hworld⟩ := hturn
    obtain rfl : world = ⟨[404, 200], none⟩ := hworld
    exact absurd (hrefusal.symm.trans hanswer) nofun
  · have hfault : (unstopped.prepare.run obstructed).value =
        .error (.io Disk.Fault.taken.message) := by rfl
    have hfails := (keeps_others unstopped 2 [⟨1, 1, 1⟩, ⟨2, 2, 1⟩] obstructed).2.2.1
    exact ⟨hfault, (hfails _ hfault).2.1⟩
  · have hprepare : (unstaffed.prepare.run (visited [200, 200])).value = .ok () := by
      decide +kernel
    have hfails :=
      (keeps_others unstaffed 2 [⟨1, 1, 1⟩, ⟨2, 2, 1⟩] (visited [200, 200])).2.2.2
    exact ⟨hprepare, (hfails _ hprepare rfl).2.1⟩

end Extraction

end Harvest
