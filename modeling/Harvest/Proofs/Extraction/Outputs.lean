import Harvest.Proofs.Extraction.Changes

/-!
# Files that are written once

A page is written to its draft, which is then moved to its file, and the manifest is written behind
all pages. All these files have different names in one directory, and a worker does not come back to
a page that it has written, or failed to write. So no two writes of an extraction go to one place.
Design: `SPEC_FULL.md:267–268`.
-/

namespace Harvest

namespace Disk

/-- The name of a file without its extension, which is what follows its last dot; a dot that comes
first makes none. -/
def stem (name : String) : String :=
  match (name.toList.reverse.dropWhile (· ≠ '.')).tail.reverse with
  | [] => name
  | before => String.ofList before

/-- The name of a file with another extension, which is not empty. -/
def withExtension (name extension : String) : String := stem name ++ "." ++ extension

/-- A new extension takes the place of the one that a name has. -/
theorem withExtension_append {before extension : String} (hne : before ≠ "")
    (hdot : '.' ∉ extension.toList) (other : String) :
    withExtension (before ++ "." ++ extension) other = before ++ "." ++ other := by
  have hextension : ∀ c ∈ extension.toList.reverse, decide (c ≠ '.') = true := by
    intro c hc
    rw [decide_eq_true_eq]
    rintro rfl
    exact hdot (List.mem_reverse.mp hc)
  have hbehind : (before ++ "." ++ extension).toList.reverse.dropWhile (· ≠ '.') =
      '.' :: before.toList.reverse := by
    simp only [String.toList_append, List.reverse_append, List.append_assoc]
    rw [List.dropWhile_append_of_pos hextension]
    rfl
  have hstem : stem (before ++ "." ++ extension) = before := by
    have hchars : before.toList ≠ [] := by simpa using hne
    rw [stem, hbehind, List.tail_cons, List.reverse_reverse]
    split
    · next hnil => exact absurd hnil hchars
    · exact String.ofList_toList
  rw [withExtension, hstem]

end Disk

namespace Plan

/-- The draft of a page has the name of its file, but for the extension. -/
theorem withExtension_pageFileName (i j : Nat) :
    Disk.withExtension (pageFileName i j) "json.tmp" = draftName i j := by
  have hname : pageFileName i j = s!"split_{i}_page_{j}" ++ "." ++ "json" := by
    apply String.toList_injective
    simp [pageFileName, toString]
  have hne : s!"split_{i}_page_{j}" ≠ "" := by
    intro hempty
    have hchars := congrArg String.toList hempty
    simp [toString] at hchars
  rw [hname, Disk.withExtension_append hne (by decide), draftName, hname]
  simp [String.append_assoc]

end Plan

namespace Extraction

open Disk (ChangesOnly IsPlain)
open Plan (IsPageName Split draftName isPlain_draftName isPlain_manifest isPlain_pageFileName
  pageFileName pageFileName_inj)

variable {σ : Type} {x : Extraction σ} {s site : Site σ} {p q : Pool σ} {turns : List (Turn σ)}
  {turn : Turn σ} {job job' : Job} {i j n : Nat}

/-! ## Names -/

/-- A file that an extraction writes. -/
inductive Output where
  | draft (split number : Nat)
  | page (split number : Nat)
  | manifest
deriving DecidableEq

namespace Output

/-- The name of a file in the directory of the extraction. -/
def name : Output → String
  | draft split number => draftName split number
  | page split number => pageFileName split number
  | manifest => Manifest.fileName

/-- The path that an extraction writes a file to. -/
def path (x : Extraction σ) : Output → String
  | draft split number => draftPath (pagePath x.directory split number)
  | page split number => pagePath x.directory split number
  | manifest => x.manifestPath

/-- The page that a file is of. -/
def page? : Output → Option (Nat × Nat)
  | draft split number | page split number => some (split, number)
  | manifest => none

private theorem path_eq (x : Extraction σ) (o : Output) :
    o.path x = Disk.join x.directory o.name := by
  cases o with
  | draft split number => exact draftPath_pagePath _ _ _
  | page | manifest => rfl

private theorem isPlain_name (o : Output) : IsPlain o.name := by
  cases o with
  | draft split number => exact isPlain_draftName _ _
  | page split number => exact isPlain_pageFileName _ _
  | manifest => exact isPlain_manifest

/-- Files of one name are one file. -/
theorem name_injective : Function.Injective name := by
  intro a b h
  cases a with
  | draft i j =>
    cases b with
    | draft k l =>
      have hone : i = k ∧ j = l := IsPageName.unique (.inr rfl) (.inr h)
      rw [hone.1, hone.2]
    | page k l => exact absurd h.symm Plan.pageFileName_ne_draftName
    | manifest => exact absurd (.inr h.symm) Plan.not_isPageName_manifest
  | page i j =>
    cases b with
    | draft k l => exact absurd h Plan.pageFileName_ne_draftName
    | page k l =>
      have hone : i = k ∧ j = l := pageFileName_inj.mp h
      rw [hone.1, hone.2]
    | manifest => exact absurd (.inl h.symm) Plan.not_isPageName_manifest
  | manifest =>
    cases b with
    | draft k l => exact absurd (.inr h) Plan.not_isPageName_manifest
    | page k l => exact absurd (.inl h) Plan.not_isPageName_manifest
    | manifest => rfl

/-- Every file lies right below the directory, under its name. -/
theorem target_path (x : Extraction σ) (d : Disk) (o : Output) :
    d.target (o.path x) = d.target x.directory ++ [o.name] := by
  rw [path_eq, Disk.target_join_plain o.isPlain_name]

/-- Files at one place are one file. -/
theorem target_injective (x : Extraction σ) (d : Disk) :
    Function.Injective fun o : Output ↦ d.target (o.path x) := by
  intro a b h
  simp only [target_path] at h
  exact name_injective (List.singleton_inj.mp (List.append_cancel_left h))

end Output

/-! ## Pages that are written -/

/-- The page that a turn writes, or fails to write. -/
def Turn.write? : Turn σ → Option (Nat × Nat)
  | written index number _ => some (index, number)
  | _ => none

/-- The pages that some turns write, or fail to write, in order. -/
def writes (turns : List (Turn σ)) : List (Nat × Nat) := turns.flatMap (·.write?.toList)

private theorem writes_concat (turns : List (Turn σ)) (turn : Turn σ) :
    writes (turns ++ [turn]) = writes turns ++ turn.write?.toList := by
  rw [writes, List.flatMap_append, List.flatMap_singleton, writes]

/-- Whether the worker on a split is past one of its pages: it does not write that page any more. -/
def Job.IsPast (number : Nat) : Job → Prop
  | held _ | passed => False
  | between record _ | asking record _ _ | writing record _ _ => number < record.pages
  | ended _ => True

/-- A worker does not go back behind a page that it is past. -/
theorem Advances.isPast (h : Advances x s i job turn job' site) (hpast : job.IsPast n) :
    job'.IsPast n := by
  cases h with
  | pass | begin => exact hpast.elim
  | interrupt | refuse | spoil | finish => trivial
  | ask | grant => exact hpast
  | save => exact Nat.lt_succ_of_lt hpast

/-- A worker that writes a page is past it from then on, and not before. -/
theorem Advances.isPast_of_write (h : Advances x s i job turn job' site)
    (hwrite : turn.write? = some (j, n)) : j = i ∧ ¬ job.IsPast n ∧ job'.IsPast n := by
  cases h with
  | spoil h =>
    obtain ⟨rfl, rfl⟩ : i = j ∧ _ = n := by simpa [Turn.write?] using hwrite
    exact ⟨rfl, Nat.lt_irrefl _, trivial⟩
  | save h =>
    obtain ⟨rfl, rfl⟩ : i = j ∧ _ = n := by simpa [Turn.write?] using hwrite
    exact ⟨rfl, Nat.lt_irrefl _, Nat.lt_succ_self _⟩
  | _ => simp [Turn.write?] at hwrite

/-- What holds of the writes of a pool after some turns: no page was written twice, and the workers
are past all pages that were. -/
structure WritesOnce (turns : List (Turn σ)) (p : Pool σ) : Prop where
  nodup : (writes turns).Nodup
  past : ∀ i n, (i, n) ∈ writes turns → ∃ job, p.jobs[i]? = some job ∧ job.IsPast n

private theorem WritesOnce.claim (h : WritesOnce turns p) (hwrite : turn.write? = none) :
    WritesOnce (turns ++ [turn]) p.claim := by
  have hwrites : writes (turns ++ [turn]) = writes turns := by
    rw [writes_concat, hwrite, Option.toList_none, List.append_nil]
  refine ⟨hwrites ▸ h.nodup, fun i n hmem ↦ ?_⟩
  obtain ⟨job, hjob, hpast⟩ := h.past i n (hwrites ▸ hmem)
  have hlt : i < p.jobs.length := (List.getElem?_eq_some_iff.mp hjob).1
  exact ⟨job, (List.getElem?_append_left hlt).trans hjob, hpast⟩

private theorem WritesOnce.advance (h : WritesOnce turns p) (hjob : p.jobs[i]? = some job)
    (hadvances : Advances x p.site i job turn job' site) :
    WritesOnce (turns ++ [turn]) (p.put i job' site) := by
  obtain ⟨hlt, -⟩ := List.getElem?_eq_some_iff.mp hjob
  have hput : (p.put i job' site).jobs[i]? = some job' := Pool.getElem?_put job' site hlt
  have hother : ∀ j ≠ i, (p.put i job' site).jobs[j]? = p.jobs[j]? :=
    fun j hj ↦ List.getElem?_set_ne (Ne.symm hj)
  constructor
  · rw [writes_concat, List.nodup_append']
    refine ⟨h.nodup, Option.toList_nodup _, ?_⟩
    rintro ⟨j, n⟩ hmem hturn
    obtain ⟨rfl, hnot, -⟩ := hadvances.isPast_of_write (Option.mem_toList.mp hturn)
    obtain ⟨found, hfound, hpast⟩ := h.past j n hmem
    obtain rfl : job = found := Option.some.inj (hjob.symm.trans hfound)
    exact hnot hpast
  · intro j n hmem
    rw [writes_concat, List.mem_append] at hmem
    obtain hmem | hturn := hmem
    · obtain ⟨found, hfound, hpast⟩ := h.past j n hmem
      by_cases hj : j = i
      · subst hj
        obtain rfl : job = found := Option.some.inj (hjob.symm.trans hfound)
        exact ⟨job', hput, hadvances.isPast hpast⟩
      · exact ⟨found, (hother j hj).trans hfound, hpast⟩
    · obtain ⟨rfl, -, hpast⟩ := hadvances.isPast_of_write (Option.mem_toList.mp hturn)
      exact ⟨job', hput, hpast⟩

/-- Every turn writes a page that no turn before it has written, if any. -/
theorem WritesOnce.takes (h : WritesOnce turns p) (htakes : Takes x p turn q) :
    WritesOnce (turns ++ [turn]) q := by
  cases htakes with
  | claim | retire => exact h.claim rfl
  | advance hjob hadvances => exact h.advance hjob hadvances

/-- No page is written twice, however the workers take turns. -/
theorem writesOnce_of_works (h : Works x p turns q) : WritesOnce turns q := by
  induction h with
  | refl => exact ⟨List.nodup_nil, fun i n hmem ↦ absurd hmem List.not_mem_nil⟩
  | snoc hworks htakes ih => exact ih.takes htakes

/-! ## Files that are written -/

/-- The files that a page is written to, one after the other. -/
def pageOutputs (page : Nat × Nat) : List Output := [.draft page.1 page.2, .page page.1 page.2]

/-- The files that a turn writes, or fails to write. -/
def Turn.outputs (turn : Turn σ) : List Output := turn.write?.toList.flatMap pageOutputs

/-- The files that an extraction writes, or fails to write, in some turns and behind them. -/
def outputs (turns : List (Turn σ)) : List Output := turns.flatMap Turn.outputs ++ [.manifest]

private theorem page?_of_mem {page : Nat × Nat} {o : Output} (h : o ∈ pageOutputs page) :
    o.page? = some page := by
  simp only [pageOutputs, List.mem_cons, List.not_mem_nil, or_false] at h
  obtain rfl | rfl := h <;> rfl

/-- Where no page is written twice, no file is. -/
theorem nodup_outputs (h : (writes turns).Nodup) : (outputs turns).Nodup := by
  have hpages : turns.flatMap Turn.outputs = (writes turns).flatMap pageOutputs :=
    List.flatMap_assoc.symm
  rw [outputs, hpages, List.nodup_append', List.nodup_flatMap]
  refine ⟨⟨fun page _ ↦ ?_, h.imp fun {page page'} hne ↦ ?_⟩, List.nodup_singleton _, ?_⟩
  · simp [pageOutputs]
  · intro o ho ho'
    exact hne (Option.some.inj ((page?_of_mem ho).symm.trans (page?_of_mem ho')))
  · simp [pageOutputs]

/-- However workers take turns, no two of the files that they write lie at one place. -/
theorem Works.nodup_targets (h : Works x p turns q) (d : Disk) :
    ((outputs turns).map fun o ↦ d.target (o.path x)).Nodup :=
  (nodup_outputs (writesOnce_of_works h).nodup).map (Output.target_injective x d)

/-! ## What is changed -/

/-- Whether one of some files has a name. -/
def IsNameAmong (written : List Output) (name : String) : Prop := ∃ o ∈ written, o.name = name

/-- The names of a page are those of the files that it is written to. -/
theorem isNameAmong_pageOutputs {name : String} (h : IsPageName i n name) :
    IsNameAmong (pageOutputs (i, n)) name := by
  obtain rfl | rfl := h
  · exact ⟨.page i n, by simp [pageOutputs], rfl⟩
  · exact ⟨.draft i n, by simp [pageOutputs], rfl⟩

/-- A turn changes the files only that it writes. -/
theorem Advances.changesOnly_outputs (h : Advances x s i job turn job' site) :
    ChangesOnly x.directory (IsNameAmong turn.outputs) s.disk site.disk := by
  cases h with
  | pass | begin | interrupt | ask | refuse | grant | finish => exact .refl _
  | spoil | save => exact (writePage_changesOnly s).mono fun _ ↦ isNameAmong_pageOutputs

private theorem Takes.changesOnly_outputs (h : Takes x p turn q) :
    ChangesOnly x.directory (IsNameAmong turn.outputs) p.site.disk q.site.disk := by
  cases h with
  | claim | retire => exact .refl _
  | advance hjob hadvances => exact hadvances.changesOnly_outputs

/-- Behind the turns the manifest is written, and nothing else. -/
theorem Pool.changesOnly_manifest (x : Extraction σ) (available : Nat) (s : Site σ) (p : Pool σ) :
    ChangesOnly x.directory (IsNameAmong [.manifest]) p.site.disk
      (p.result x available s).state.disk := by
  refine (conclude_changesOnly x (p.manifest x available s) p.site).mono fun name hname ↦ ?_
  exact ⟨.manifest, List.mem_singleton_self _, hname.symm⟩

/-- What is changed in the directory of an extraction lies where the paths of its files lead. -/
theorem target_of_changesOnly {d e : Disk} {written : List Output} {place : Disk.Place}
    (h : ChangesOnly x.directory (IsNameAmong written) d e) (hhere : d.here = s.disk.here)
    (hne : e.find? place ≠ d.find? place) : ∃ o ∈ written, place = s.disk.target (o.path x) := by
  obtain ⟨q, name, ⟨o, ho, rfl⟩, hq, rfl⟩ := h.changed place hne
  refine ⟨o, ho, ?_⟩
  rw [Output.target_path, hq.eq_target, Disk.target_congr hhere]

/-- Pages are told apart by the names of their files. A draft has the name of its file with another
extension. No page file has the name of a draft or of the manifest, and no slash is in its name. So
however many workers take turns, what an extraction writes in these turns and behind them goes to
places of which no two are the same, and each turn changes what is at its own places only. A run
that starts is an extraction by one worker. -/
theorem outputs_lie_apart (x : Extraction σ) (available : Nat) (splits : List Split) (s : Site σ) :
    (∀ i j k l, pageFileName i j = pageFileName k l ↔ i = k ∧ j = l) ∧
    (∀ dir i j, draftPath (pagePath dir i j) =
      Disk.join dir (Disk.withExtension (pageFileName i j) "json.tmp")) ∧
    (∀ i j, pageFileName i j ≠ Manifest.fileName ∧ '/' ∉ (pageFileName i j).toList ∧
      ∀ k l, pageFileName i j ≠ Disk.withExtension (pageFileName k l) "json.tmp") ∧
    (∀ workers turns p, Works x (.start (x.prepared s) splits workers) turns p →
      ((outputs turns).map fun o ↦ s.disk.target (o.path x)).Nodup ∧
      (∀ turn q, Takes x p turn q → ∀ place, q.site.disk.find? place ≠ p.site.disk.find? place →
        ∃ o ∈ turn.outputs, place = s.disk.target (o.path x)) ∧
      ∀ place, (p.result x available s).state.disk.find? place ≠ p.site.disk.find? place →
        place = s.disk.target x.manifestPath) ∧
    (x.Starts splits s → ∃ turns p, x.Conducts splits s 1 turns p ∧
      ((x.run available splits).run s).state = (p.result x available s).state) := by
  simp only [Plan.withExtension_pageFileName]
  refine ⟨fun i j k l ↦ pageFileName_inj, draftPath_pagePath, fun i j ↦ ⟨?_, ?_, ?_⟩, ?_, ?_⟩
  · exact fun h ↦ Plan.not_isPageName_manifest (.inl h.symm)
  · exact (isPlain_pageFileName i j).no_slash
  · exact fun k l ↦ Plan.pageFileName_ne_draftName
  · intro workers turns p hworks
    have hhere : p.site.disk.here = s.disk.here :=
      hworks.changesOnly.directories.here.trans (Disk.makeDirectories_makes s.disk x.directory).1
    refine ⟨hworks.nodup_targets s.disk, fun turn q htakes place hne ↦ ?_, fun place hne ↦ ?_⟩
    · exact target_of_changesOnly htakes.changesOnly_outputs hhere hne
    · have hmanifest := p.changesOnly_manifest x available s
      obtain ⟨o, ho, hplace⟩ := target_of_changesOnly hmanifest hhere hne
      rwa [List.mem_singleton.mp ho] at hplace
  · intro hstarts
    obtain ⟨turns, p, hconducts, -, hstate, -⟩ := run_conducts hstarts available
    exact ⟨turns, p, hconducts, hstate⟩

/-- Two workers write a page each, the later one first, at different places; the turn that writes
the other page changes its file. A run is an extraction by one worker. -/
theorem outputs_lie_apart_twoWorkers :
    (∃ turns p, Works unstopped (.start (unstopped.prepared (expecting [200, 200]))
        [⟨1, 1, 1⟩, ⟨2, 2, 1⟩] 2) turns p ∧
      outputs turns = [.draft 1 0, .page 1 0, .draft 0 0, .page 0 0, .manifest] ∧
      ((outputs turns).map fun o ↦
        (expecting [200, 200]).disk.target (o.path unstopped)).Nodup) ∧
    (∃ o ∈ (Turn.written 0 0 (.ok ()) : Turn (List Nat)).outputs,
      ["User", "split_0_page_0.json"] = (expecting [200, 200]).disk.target (o.path unstopped)) ∧
    ∃ turns p, unstopped.Conducts [⟨1, 1, 1⟩, ⟨2, 2, 1⟩] (expecting [200, 200]) 1 turns p := by
  obtain ⟨-, -, -, hworking, hrun⟩ :=
    outputs_lie_apart unstopped 2 [⟨1, 1, 1⟩, ⟨2, 2, 1⟩] (expecting [200, 200])
  have hstart := Works.refl (x := unstopped)
    (p := .start (unstopped.prepared (expecting [200, 200])) [⟨1, 1, 1⟩, ⟨2, 2, 1⟩] 2)
  have hclaimed := (hstart.snoc (.claim (by decide) rfl)).snoc (.claim (by decide) rfl)
  have hbegun := (hclaimed.snoc (.advance (i := 0) rfl (.begin rfl))).snoc
    (.advance (i := 1) rfl (.begin rfl))
  have hasked := (hbegun.snoc (.advance (i := 0)
      (show _ = some (.between (startRecord 0 ⟨1, 1, 1⟩) [⟨0, 1⟩]) from rfl) (.ask rfl))).snoc
    (.advance (i := 1) (show _ = some (.between (startRecord 1 ⟨2, 2, 1⟩) [⟨1, 1⟩]) from rfl)
      (.ask rfl))
  have hgranted := (hasked.snoc (.advance (i := 0) rfl
      (.grant (show _ = Except.ok ⟨200, "", none, [52]⟩ from by decide +kernel)))).snoc
    (.advance (i := 1) rfl
      (.grant (show _ = Except.ok ⟨200, "", none, [52]⟩ from by decide +kernel)))
  have hfirst := hgranted.snoc (.advance (i := 1) rfl (.save (by decide +kernel)))
  have hboth := hfirst.snoc (.advance (i := 0) rfl (.save (by decide +kernel)))
  refine ⟨⟨_, _, hboth, rfl, (hworking 2 _ _ hboth).1⟩, ?_, ?_⟩
  · exact (hworking 2 _ _ hfirst).2.1 _ _ (.advance (i := 0) rfl (.save (by decide +kernel)))
      ["User", "split_0_page_0.json"] (by decide +kernel)
  · obtain ⟨turns, p, hconducts, -⟩ := hrun ⟨by decide +kernel, rfl⟩
    exact ⟨turns, p, hconducts⟩

end Extraction

end Harvest
