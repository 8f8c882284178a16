import Harvest.Proofs.Disk.Alike
import Harvest.Proofs.Extraction.Pages

/-!
# What is left of a page that is not written

A page is written to a draft, and the draft moved to its file. There are two ways to fail: the draft
cannot be written, and then the disk stays as it was; or the file's name is taken by a directory,
and then the draft stays behind. So a page that is not written leaves the disk as it was only in the
first of these ways, or where the draft was there with the same bytes before.
-/

namespace Harvest

namespace Disk

variable {d e : Disk} {p : Place} {path dir name more : String}

/-- Where a path below a directory leads somewhere, so does the one of a shorter name. -/
theorem resolve_join_of_longer (h : IsPlain name) (hlonger : IsPlain (name ++ more))
    (hp : d.resolve (join dir (name ++ more)) = .ok p) :
    ∃ q, p = q ++ [name ++ more] ∧ d.resolve (join dir name) = .ok (q ++ [name]) := by
  obtain ⟨hzero, -, hlimit, hwalk⟩ := resolve_eq_ok_iff.mp hp
  rw [join_append h hlonger] at hzero hlimit
  rw [names_join hlonger, isAbsolute_join hlonger] at hwalk
  obtain ⟨q, hq, hlast⟩ := walk_append.mp hwalk
  obtain ⟨hdir, hsize, rfl⟩ := (walk_plain_iff hlonger).mp hlast
  rw [String.utf8ByteSize_append] at hlimit hsize
  refine ⟨q, rfl, resolve_eq_ok_iff.mpr ⟨?_, join_ne_empty h, by omega, ?_⟩⟩
  · exact fun hmem ↦ hzero (by simp [hmem])
  · rw [names_join h, isAbsolute_join h]
    exact walk_append.mpr ⟨q, hq, (walk_plain_iff h).mpr ⟨hdir, by omega, rfl⟩⟩

/-- Writing a file keeps the directories. -/
theorem sameDirectories_of_write {content : Text.Bytes} (h : d.write path content = .ok e) :
    SameDirectories d e := by
  obtain ⟨p, -, hdir, rfl⟩ := write_eq_ok_iff.mp h
  exact sameDirectories_put hdir

/-- A path that leads nowhere on the disk stands for nothing. -/
theorem contains_of_find?_eq_none (hp : d.resolve path = .ok p) (h : d.find? p = none) :
    d.contains path = false := by
  simp [contains, look, hp, h, bind, Except.bind, Except.isOk, Except.toBool]

/-- Whether a path leads to a directory depends on what is at its place. -/
theorem isDirectory_eq (hp : d.resolve path = .ok p) : d.isDirectory path = d.isDirectoryAt p := by
  simp only [isDirectory, isDirectoryAt, look, hp, bind, Except.bind]
  cases d.find? p with
  | none => rfl
  | some entry =>
    cases entry with
    | directory => rfl
    | file content =>
      by_cases hlast : path.toList.getLast? = some '/'
      · simp only [if_pos hlast]
        rfl
      · simp only [if_neg hlast]
        rfl

end Disk

namespace Extraction

open Disk (ChangesOnly)
open Plan (IsPageName draftName isPlain_draftName isPlain_pageFileName pageFileName)

variable {σ : Type} {s : Site σ} {d e : Disk} {q : Disk.Place} {dir : String} {split number : Nat}
  {body : Text.Bytes} {value : Except Service.Error Unit}

/-- The ways in which a page can be written or not, and what becomes of the disk. -/
inductive Lays (dir : String) (split number : Nat) (body : Text.Bytes) (d : Disk) :
    Except Service.Error Unit → Disk → Prop
  | undrafted {fault : Disk.Fault}
      (hwrite : d.write (Disk.join dir (draftName split number)) body = .error fault) :
      Lays dir split number body d (.error (.io fault.message)) d
  | stuck {q : Disk.Place}
      (hdraft : d.resolve (Disk.join dir (draftName split number)) =
        .ok (q ++ [draftName split number]))
      (hpage : d.resolve (pagePath dir split number) = .ok (q ++ [pageFileName split number]))
      (hfree : d.isDirectoryAt (q ++ [draftName split number]) = false)
      (htaken : d.isDirectoryAt (q ++ [pageFileName split number]) = true) :
      Lays dir split number body d (.error (.io Disk.Fault.isDirectory.message))
        (d.put (q ++ [draftName split number]) (.file body))
  | moved {q : Disk.Place}
      (hdraft : d.resolve (Disk.join dir (draftName split number)) =
        .ok (q ++ [draftName split number]))
      (hpage : d.resolve (pagePath dir split number) = .ok (q ++ [pageFileName split number]))
      (hfree : d.isDirectoryAt (q ++ [draftName split number]) = false)
      (hfree' : d.isDirectoryAt (q ++ [pageFileName split number]) = false) :
      Lays dir split number body d (.ok ())
        (((d.put (q ++ [draftName split number]) (.file body)).erase
          (q ++ [draftName split number])).put (q ++ [pageFileName split number]) (.file body))

/-- Every page is written or not in one of these ways. -/
theorem writePage_lays (dir : String) (split number : Nat) (body : Text.Bytes) (s : Site σ) :
    let r := (writePage dir split number body).run s
    Lays dir split number body s.disk r.value r.state.disk ∧ r.state.world = s.world := by
  rw [run_writePage]
  cases hwrite : s.disk.write (Disk.join dir (draftName split number)) body with
  | error fault => exact ⟨.undrafted hwrite, rfl⟩
  | ok drafted =>
    have hread := Disk.read_of_write hwrite (Disk.getLast?_join (isPlain_draftName _ _))
    obtain ⟨p, hdraft, hfree, rfl⟩ := Disk.write_eq_ok_iff.mp hwrite
    obtain ⟨q, rfl, hpage⟩ := Disk.resolve_join_of_longer
      (isPlain_pageFileName split number) (isPlain_draftName split number) hdraft
    have hsame := Disk.sameDirectories_of_write hwrite
    have hgoal := hsame.resolve_iff.mpr hpage
    cases htaken : s.disk.isDirectoryAt (q ++ [pageFileName split number]) with
    | true =>
      have hmove := (Disk.rename_eq_error_iff hread).mpr
        (.inr ⟨_, hgoal, (hsame.isDirectoryAt _).trans htaken, rfl⟩)
      simp only [pagePath, hmove]
      exact ⟨.stuck hdraft hpage hfree htaken, trivial⟩
    | false =>
      have hmove := (Disk.rename_eq_ok_iff hread).mpr
        ⟨_, _, hsame.resolve_iff.mpr hdraft, Disk.find?_put_self (by simp), hgoal,
          (hsame.isDirectoryAt _).trans htaken, rfl⟩
      simp only [pagePath, hmove]
      exact ⟨.moved hdraft hpage hfree htaken, trivial⟩

/-- A draft that is stuck is all that has changed. -/
private theorem stuck_iff {place : Disk.Place} (hne : place ≠ []) :
    (∀ other, (d.put place (.file body)).find? other = d.find? other) ↔
      d.find? place = some (.file body) := by
  constructor
  · intro h
    rw [← h place, Disk.find?_put_self hne]
  · intro h other
    by_cases hother : other = place
    · rw [hother, Disk.find?_put_self hne, h]
    · exact Disk.find?_put_of_ne _ hother

/-- A page is written where its draft can be, unless there is a directory of its name; then its file
holds it, the draft is gone, and nothing else has changed. A page that is not written leaves all but
its draft as it was, and it leaves everything as it was exactly where the draft could not be written
or was there before with the same bytes; else the draft stays behind. -/
theorem writePage_leaves_nothing_iff (dir : String) (split number : Nat) (body : Text.Bytes)
    (s : Site σ) :
    let file := pagePath dir split number
    let r := (writePage dir split number body).run s
    (r.value = .ok () ↔ (∃ drafted, s.disk.write (draftPath file) body = .ok drafted) ∧
      s.disk.isDirectory file = false) ∧
    (r.value = .ok () → r.state.disk.read file = .ok body ∧
      r.state.disk.contains (draftPath file) = false ∧
      ChangesOnly dir (IsPageName split number) s.disk r.state.disk) ∧
    ∀ e, r.value = .error e →
      ChangesOnly dir (· = draftName split number) s.disk r.state.disk ∧
      ((∀ place, r.state.disk.find? place = s.disk.find? place) ↔
        (∃ fault, s.disk.write (draftPath file) body = .error fault) ∨
          s.disk.read (draftPath file) = .ok body) ∧
      ((∃ drafted, s.disk.write (draftPath file) body = .ok drafted) →
        r.state.disk.read (draftPath file) = .ok body) := by
  obtain ⟨hlays, -⟩ := writePage_lays dir split number body s
  have hchange : ChangesOnly dir (IsPageName split number) s.disk
      ((writePage dir split number body).run s).state.disk := writePage_changesOnly s
  simp only [draftPath_pagePath]
  generalize (writePage dir split number body).run s = r at hlays hchange ⊢
  obtain ⟨value, trace, site⟩ := r
  simp only at hlays hchange ⊢
  generalize site.disk = e at hlays hchange ⊢
  have hlast : (Disk.join dir (draftName split number)).toList.getLast? ≠ some '/' :=
    Disk.getLast?_join (isPlain_draftName _ _)
  cases hlays with
  | undrafted hwrite =>
    refine ⟨?_, nofun, fun e _ ↦ ⟨.refl _, ?_, ?_⟩⟩
    · simp [hwrite]
    · simp [hwrite]
    · simp [hwrite]
  | stuck hdraft hpage hfree htaken =>
    have hwrite : s.disk.write _ body = .ok _ :=
      Disk.write_eq_ok_iff.mpr ⟨_, hdraft, hfree, rfl⟩
    refine ⟨?_, nofun, fun e _ ↦ ⟨Disk.changesOnly_write (isPlain_draftName _ _) hwrite, ?_, ?_⟩⟩
    · rw [Disk.isDirectory_eq hpage, htaken]
      simp
    · rw [stuck_iff (by simp), hwrite, Disk.read_eq_ok_iff]
      simp [hdraft, hlast]
    · intro _
      exact Disk.read_of_write hwrite hlast
  | moved hdraft hpage hfree hfree' =>
    have hwrite : s.disk.write _ body = .ok _ :=
      Disk.write_eq_ok_iff.mpr ⟨_, hdraft, hfree, rfl⟩
    refine ⟨?_, fun _ ↦ ⟨?_, ?_, hchange⟩, nofun⟩
    · rw [Disk.isDirectory_eq hpage, hfree', hwrite]
      simp
    · refine Disk.read_eq_ok_iff.mpr ⟨_, hchange.directories.resolve_iff.mpr hpage,
        Disk.find?_put_self (by simp), Disk.getLast?_join (isPlain_pageFileName _ _)⟩
    · refine Disk.contains_of_find?_eq_none (hchange.directories.resolve_iff.mpr hdraft) ?_
      have hne := (Plan.pageFileName_ne_draftName (i := split) (j := number) (k := split)
        (l := number)).symm
      rw [Disk.find?_put_of_ne _ (by simpa using hne), Disk.find?_erase_self (by simp)]

/-- A site with a single directory in its root. -/
def besides (name : String) : Site Unit := ⟨⟨(), none⟩, ⟨[([name], .directory)], []⟩⟩

/-- Where the file's name is free the page is written and its draft is gone; where a directory has
taken it the draft stays behind. -/
theorem writePage_leaves_nothing_iff_taken :
    let written := (writePage "" 0 0 [65]).run (besides "other")
    let failed := (writePage "" 0 0 [65]).run (besides "split_0_page_0.json")
    (written.value = .ok () ∧ written.state.disk.read "split_0_page_0.json" = .ok [65] ∧
      written.state.disk.contains "split_0_page_0.json.tmp" = false) ∧
    failed.value = .error (.io "Is a directory (os error 21)") ∧
      failed.state.disk.read "split_0_page_0.json.tmp" = .ok [65] ∧
      ¬ ∀ place, failed.state.disk.find? place =
        (besides "split_0_page_0.json").disk.find? place := by
  constructor
  · have hvalue : ((writePage "" 0 0 [65]).run (besides "other")).value = .ok () := by
      rfl
    obtain ⟨hread, hgone, -⟩ := (writePage_leaves_nothing_iff "" 0 0 [65] (besides "other")).2.1
      hvalue
    exact ⟨hvalue, hread, hgone⟩
  · have hvalue : ((writePage "" 0 0 [65]).run (besides "split_0_page_0.json")).value =
        .error (.io "Is a directory (os error 21)") := by rfl
    obtain ⟨-, hiff, hleft⟩ := (writePage_leaves_nothing_iff "" 0 0 [65]
      (besides "split_0_page_0.json")).2.2 _ hvalue
    refine ⟨hvalue, hleft ⟨_, rfl⟩, fun hsame ↦ ?_⟩
    obtain ⟨fault, hfault⟩ | hread := hiff.mp hsame
    · have hdrafted : (besides "split_0_page_0.json").disk.write
          (draftPath (pagePath "" 0 0)) [65] = .ok _ := rfl
      rw [hdrafted] at hfault
      cases hfault
    · have hnone : (besides "split_0_page_0.json").disk.read
          (draftPath (pagePath "" 0 0)) = .error .notFound := rfl
      rw [hnone] at hread
      cases hread

end Extraction

end Harvest
