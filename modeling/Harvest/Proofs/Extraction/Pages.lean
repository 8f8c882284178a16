import Harvest.Proofs.Disk.Change
import Harvest.Proofs.Extraction.Steps
import Harvest.Proofs.Plan.Name

/-!
# What saving a page changes

A page that is saved can be read from its file. Saving a page, whether it succeeds or not, touches
its file and its draft and nothing else on the disk.
-/

namespace Harvest.Extraction

open Disk (ChangesOnly IsPlain)
open Plan (IsPageName Page draftName isPlain_draftName isPlain_pageFileName)

variable {σ : Type} {x : Extraction σ} {s : Site σ} {dir : String} {split number : Nat}
  {body : Text.Bytes}

/-! ## Writing a page -/

/-- The draft of a page lies beside its file. -/
theorem draftPath_pagePath (dir : String) (split number : Nat) :
    draftPath (pagePath dir split number) = Disk.join dir (draftName split number) :=
  (Disk.join_append (isPlain_pageFileName _ _) (isPlain_draftName _ _)).symm

/-- A page is written to its draft, and the draft moved to its file; where the draft cannot be
moved it stays. -/
theorem run_writePage : (writePage dir split number body).run s =
    match s.disk.write (Disk.join dir (draftName split number)) body with
    | .error fault => ⟨.error (.io fault.message), [], s⟩
    | .ok drafted =>
      match drafted.rename (Disk.join dir (draftName split number))
          (pagePath dir split number) with
      | .error fault => ⟨.error (.io fault.message), [], { s with disk := drafted }⟩
      | .ok disk => ⟨.ok (), [], { s with disk }⟩ := by
  cases hwrite : s.disk.write (Disk.join dir (draftName split number)) body with
  | error fault =>
    have hrun : (onDisk (·.write (Disk.join dir (draftName split number)) body)).run s =
        ⟨.error (.io fault.message), [], s⟩ := run_onDisk_error hwrite
    simp [writePage, draftPath_pagePath, Act.run_bind, hrun]
  | ok drafted =>
    have hrun : (onDisk (·.write (Disk.join dir (draftName split number)) body)).run s =
        ⟨.ok (), [], { s with disk := drafted }⟩ := run_onDisk_ok hwrite
    simp only [writePage, draftPath_pagePath, Act.run_bind, hrun, List.nil_append]
    cases hmove : drafted.rename (Disk.join dir (draftName split number))
        (pagePath dir split number) with
    | error fault =>
      have hrun : (onDisk (·.rename (Disk.join dir (draftName split number))
          (pagePath dir split number))).run { s with disk := drafted } =
            ⟨.error (.io fault.message), [], { s with disk := drafted }⟩ := run_onDisk_error hmove
      rw [hrun]
    | ok disk =>
      have hrun : (onDisk (·.rename (Disk.join dir (draftName split number))
          (pagePath dir split number))).run { s with disk := drafted } =
            ⟨.ok (), [], { s with disk }⟩ := run_onDisk_ok hmove
      rw [hrun]

/-- What a page is written to before it is moved can be read. -/
private theorem read_draft {disk drafted : Disk}
    (h : disk.write (Disk.join dir (draftName split number)) body = .ok drafted) :
    drafted.read (Disk.join dir (draftName split number)) = .ok body :=
  Disk.read_of_write h (Disk.getLast?_join (isPlain_draftName _ _))

/-- Writing a page touches its file and its draft, whether it succeeds or not. -/
theorem writePage_changesOnly (s : Site σ) : ChangesOnly dir (IsPageName split number) s.disk
    ((writePage dir split number body).run s).state.disk := by
  rw [run_writePage]
  split
  · exact .refl _
  · next drafted hwrite =>
    have hdraft : ChangesOnly dir (IsPageName split number) s.disk drafted :=
      (Disk.changesOnly_write (isPlain_draftName _ _) hwrite).mono fun _ ↦ .inr
    split
    · exact hdraft
    · next disk hmove =>
      have hmoved := Disk.changesOnly_rename (isPlain_draftName _ _) (isPlain_pageFileName _ _)
        (read_draft hwrite) hmove
      exact hdraft.trans (hmoved.mono fun _ ↦ Or.symm)

/-- A page that is written can be read from its file. -/
theorem read_of_writePage (h : ((writePage dir split number body).run s).value = .ok ()) :
    ((writePage dir split number body).run s).state.disk.read (pagePath dir split number) =
      .ok body := by
  rw [run_writePage] at h ⊢
  split at h
  · simp at h
  · next drafted hwrite =>
    split at h
    · simp at h
    · next disk hmove =>
      exact Disk.read_of_rename (read_draft hwrite) hmove
        (Disk.getLast?_join (isPlain_pageFileName _ _))

/-! ## Saving a page -/

/-- Whether the service grants a page with a body, in some state of the world. -/
def Grants (x : Extraction σ) (page : Page) (body : Text.Bytes) : Prop :=
  ∃ world response, ((x.service.fetchPage page).run world).value = .ok response ∧
    response.body = body

variable {page : Page}

/-- A page that is not granted is not saved, and the disk stays as it is. -/
theorem run_savePage_of_error {e : Service.Error}
    (h : ((x.service.fetchPage page).run s.world).value = .error e) :
    (x.savePage split number page).run s =
      let fetched := (x.service.fetchPage page).run s.world
      ⟨.error e, fetched.trace, { s with world := fetched.state }⟩ := by
  have hrun : (inWorld (x.service.fetchPage page)).run s =
      ⟨.error e, ((x.service.fetchPage page).run s.world).trace,
        { s with world := ((x.service.fetchPage page).run s.world).state }⟩ := by
    rw [← h]
    rfl
  simp [savePage, Act.run_bind, hrun]

/-- A page that is granted is written. -/
theorem run_savePage_of_ok {response : Http.Response}
    (h : ((x.service.fetchPage page).run s.world).value = .ok response) :
    (x.savePage split number page).run s =
      let fetched := (x.service.fetchPage page).run s.world
      let written := (writePage x.directory split number response.body).run
        { s with world := fetched.state }
      ⟨written.value.map fun _ ↦ response.body.length, fetched.trace ++ written.trace,
        written.state⟩ := by
  have hrun : (inWorld (x.service.fetchPage page)).run s =
      ⟨.ok response, ((x.service.fetchPage page).run s.world).trace,
        { s with world := ((x.service.fetchPage page).run s.world).state }⟩ := by
    rw [← h]
    rfl
  simp only [savePage, Act.run_bind, hrun]
  cases hwritten : ((writePage x.directory split number response.body).run
      { s with world := ((x.service.fetchPage page).run s.world).state }).value with
  | error e => simp [Except.map]
  | ok => simp [Except.map]

/-- Saving a page touches its file and its draft. -/
theorem savePage_changesOnly (x : Extraction σ) (s : Site σ) :
    ChangesOnly x.directory (IsPageName split number) s.disk
      ((x.savePage split number page).run s).state.disk := by
  cases hfetch : ((x.service.fetchPage page).run s.world).value with
  | error e =>
    rw [run_savePage_of_error hfetch]
    exact .refl _
  | ok response =>
    simp only [run_savePage_of_ok hfetch]
    exact writePage_changesOnly { s with world := ((x.service.fetchPage page).run s.world).state }

/-- A page that is saved has been granted, and can be read from its file. -/
theorem savePage_ok {bytes : Nat} (h : ((x.savePage split number page).run s).value = .ok bytes) :
    ∃ body, x.Grants page body ∧ body.length = bytes ∧
      ((x.savePage split number page).run s).state.disk.read
        (pagePath x.directory split number) = .ok body := by
  cases hfetch : ((x.service.fetchPage page).run s.world).value with
  | error e =>
    rw [run_savePage_of_error hfetch] at h
    simp at h
  | ok response =>
    rw [run_savePage_of_ok hfetch] at h ⊢
    simp only at h ⊢
    cases hwritten : ((writePage x.directory split number response.body).run
        { s with world := ((x.service.fetchPage page).run s.world).state }).value with
    | error e => simp [hwritten, Except.map] at h
    | ok =>
      have hbytes : response.body.length = bytes := by simpa [hwritten, Except.map] using h
      exact ⟨response.body, ⟨s.world, response, hfetch, rfl⟩, hbytes, read_of_writePage hwritten⟩

end Harvest.Extraction
