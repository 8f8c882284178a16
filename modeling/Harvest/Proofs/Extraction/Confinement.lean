import Harvest.Proofs.Disk.Target
import Harvest.Proofs.Extraction.Outcomes
import Harvest.Settings.Validate

/-!
# Where an extraction writes

An extraction makes the directory of its entity, with what is missing above it, and writes its files
there. That directory lies within the output directory where the name of the entity, taken as a
path, stays below its start. Where the name starts at the root, or leads above its start, the files
lie elsewhere, unless it leads back by the name of the output directory itself.
-/

namespace Harvest.Extraction

open Disk (ChangesOnly)
open Plan (IsPageName Split)

variable {σ : Type} {x : Extraction σ} {s : Site σ} {p q : Pool σ} {splits : List Split}
  {turns : List (Turn σ)} {d e : Disk} {place : Disk.Place} {available workers : Nat}
  {m : Manifest}

/-! ## What is touched -/

/-- The names of the files that an extraction writes. -/
def IsOutputName (name : String) : Prop :=
  name = Manifest.fileName ∨ ∃ split number, IsPageName split number name

/-- The ways in which an extraction changes what is at a place. -/
inductive Touches (x : Extraction σ) (d e : Disk) (place : Disk.Place) : Prop
  | made (hway : d.OnWay x.directory place) (hmissing : d.find? place = none)
      (hmade : e.find? place = some .directory)
  | written {name : String} (hname : IsOutputName name)
      (hplace : place = d.target x.directory ++ [name])

/-- The disks that an extraction comes by: that of a run behind it, and those of workers at any time
between their turns, and behind the manifest that sums them up. -/
inductive Leaves (x : Extraction σ) (available : Nat) (splits : List Split) (s : Site σ) :
    Disk → Prop
  | ran : Leaves x available splits s ((x.run available splits).run s).state.disk
  | working {workers : Nat} {turns : List (Turn σ)} {p : Pool σ}
      (h : Works x (.start (x.prepared s) splits workers) turns p) :
      Leaves x available splits s p.site.disk
  | summedUp {workers : Nat} {turns : List (Turn σ)} {p : Pool σ}
      (h : Works x (.start (x.prepared s) splits workers) turns p) :
      Leaves x available splits s (p.result x available s).state.disk

/-- A turn writes files of the extraction only. -/
theorem Takes.changesOnly {turn : Turn σ} (h : Takes x p turn q) :
    ChangesOnly x.directory IsOutputName p.site.disk q.site.disk := by
  cases h with
  | claim | retire => exact .refl _
  | advance hjob hadvances => exact hadvances.changesOnly.mono fun _ hname ↦ .inr ⟨_, hname⟩

/-- So do all turns. -/
theorem Works.changesOnly (h : Works x p turns q) :
    ChangesOnly x.directory IsOutputName p.site.disk q.site.disk := by
  induction h with
  | refl => exact .refl _
  | snoc hworks htakes ih => exact ih.trans htakes.changesOnly

/-- Behind the preparation of its directory, an extraction writes its files only. -/
theorem Leaves.changesOnly (h : x.Leaves available splits s e) :
    ChangesOnly x.directory IsOutputName (x.prepared s).disk e := by
  have hworking {workers turns} {p : Pool σ}
      (hworks : Works x (.start (x.prepared s) splits workers) turns p) :
      ChangesOnly x.directory IsOutputName (x.prepared s).disk p.site.disk := hworks.changesOnly
  have hsummed {workers turns} {p : Pool σ}
      (hworks : Works x (.start (x.prepared s) splits workers) turns p) :
      ChangesOnly x.directory IsOutputName (x.prepared s).disk
        (p.result x available s).state.disk :=
    (hworking hworks).trans ((conclude_changesOnly x _ p.site).mono fun _ ↦ .inl)
  cases h with
  | working hworks => exact hworking hworks
  | summedUp hworks => exact hsummed hworks
  | ran =>
    obtain hstarts | ⟨-, hstate⟩ := x.starts_or_fails available splits s
    · obtain ⟨turns, p, hconducts, -, hstate, -⟩ := run_conducts hstarts available
      rw [hstate]
      exact hsummed hconducts.works
    · rw [hstate]
      exact .refl _

/-- Whatever an extraction changes it touches in one of the ways. -/
theorem Leaves.touches (h : x.Leaves available splits s e)
    (hne : e.find? place ≠ s.disk.find? place) : x.Touches s.disk e place := by
  obtain ⟨hhere, hmade⟩ := Disk.makeDirectories_makes s.disk x.directory
  have hprepared : (x.prepared s).disk = (s.disk.makeDirectories x.directory).2 := rfl
  rw [← hprepared] at hhere hmade
  by_cases hsame : e.find? place = (x.prepared s).disk.find? place
  · rw [hsame] at hne
    obtain ⟨hway, hmissing, hdirectory⟩ := hmade place hne
    exact .made hway hmissing (hsame.trans hdirectory)
  · obtain ⟨q, name, hname, hq, rfl⟩ := h.changesOnly.changed place hsame
    exact .written hname (by rw [hq.eq_target, Disk.target_congr hhere])

/-- What an extraction touches lies inside the output directory where the name of its entity stays
below its start. -/
theorem Touches.inside (h : x.Touches d e place) (hbelow : Disk.staysBelow x.entity = true) :
    d.target x.outputDir <+: place ∨
      d.OnWay x.outputDir place ∧ d.find? place = none ∧ e.find? place = some .directory := by
  cases h with
  | made hway hmissing hmade =>
    obtain hdir | hinside := Disk.onWay_or_prefix_of_staysBelow hbelow hway
    · exact .inr ⟨hdir, hmissing, hmade⟩
    · exact .inl hinside
  | written hname hplace =>
    rw [hplace]
    exact .inl ((Disk.prefix_target_join hbelow).trans (List.prefix_append _ _))

/-- The manifest that an extraction gives lies in the directory of its entity. -/
theorem find?_manifest (hworks : Works x (.start (x.prepared s) splits workers) turns p)
    (h : (p.result x available s).value = .ok m) :
    (p.result x available s).state.disk.find? (s.disk.target x.directory ++ [Manifest.fileName]) =
      some (.file (Text.bytesOf m.text)) := by
  obtain ⟨hm, disk, hwrite, hstate⟩ := conclude_ok h
  rw [Pool.result, hstate, hm]
  obtain ⟨goal, hgoal, hfree, rfl⟩ := Disk.write_eq_ok_iff.mp hwrite
  obtain ⟨q, hq, -, rfl⟩ := Disk.resolve_join Plan.isPlain_manifest hgoal
  have hhere : p.site.disk.here = s.disk.here :=
    hworks.changesOnly.directories.here.trans (Disk.makeDirectories_makes s.disk x.directory).1
  have htarget : q = s.disk.target x.directory :=
    (Disk.LeadsTo.eq_target hq).trans (Disk.target_congr hhere _)
  rw [← htarget]
  exact Disk.find?_put_self (Disk.ne_nil_of_not_directory hfree)

/-- All that an extraction changes, however many workers take turns and whenever it is looked at,
are missing directories that are made on the way to the directory of its entity, and files of pages
and the manifest in that directory. They lie inside the output directory where the name of the
entity stays below its start. The manifest of an extraction whose entity does not stay there lies
outside, unless the last name of the output directory is among those of the entity. -/
theorem stays_inside_iff_staysBelow (x : Extraction σ) (available : Nat) (splits : List Split)
    (s : Site σ) :
    (∀ e, x.Leaves available splits s e →
      (∀ place, e.find? place ≠ s.disk.find? place → x.Touches s.disk e place) ∧
      (Disk.staysBelow x.entity = true → Disk.Inside x.outputDir s.disk e)) ∧
    ∀ workers turns p m, Works x (.start (x.prepared s) splits workers) turns p →
      (p.result x available s).value = .ok m →
      let file := s.disk.target x.directory ++ [Manifest.fileName]
      (p.result x available s).state.disk.find? file = some (.file (Text.bytesOf m.text)) ∧
      ∀ name, (s.disk.target x.outputDir).getLast? = some name → name ∉ Disk.names x.entity →
        (s.disk.target x.outputDir <+: s.disk.target x.directory ↔
          Disk.staysBelow x.entity = true) := by
  refine ⟨fun e hleaves ↦ ⟨fun place ↦ hleaves.touches, fun hbelow place hne ↦ ?_⟩, ?_⟩
  · exact (hleaves.touches hne).inside hbelow
  · intro workers turns p m hworks hvalue
    refine ⟨find?_manifest hworks hvalue, fun name hlast hfresh ↦
      ⟨fun hinside ↦ ?_, fun hbelow ↦ Disk.prefix_target_join hbelow⟩⟩
    cases hbelow : Disk.staysBelow x.entity with
    | true => rfl
    | false => exact absurd hinside (Disk.not_prefix_target_join hbelow hlast hfresh)

/-- An extraction of an entity into the directory "out". -/
def outward (entity : String) : Extraction (List Nat) :=
  { unstopped with
    service := { unstopped.service with
      endpoints := { unstopped.service.endpoints with
        query := { unstopped.service.endpoints.query with entity } } }
    outputDir := "out" }

/-- A name that leads up and down again stays inside the output directory. One that leads above it
is accepted too; the page that is fetched for it lies outside, and so does the manifest. -/
theorem stays_inside_iff_staysBelow_upward :
    Disk.Inside "out" (expecting [200]).disk
        (((outward "a/../User").run 1 [⟨1, 1, 1⟩]).run (expecting [200])).state.disk ∧
      Settings.Extract.failures { Settings.Extract.unset with entity := "../User" } = [] ∧
      ∃ turns p m, (outward "../User").Conducts [⟨1, 1, 1⟩] (expecting [200]) 1 turns p ∧
        (p.result (outward "../User") 1 (expecting [200])).value = .ok m ∧
        (p.result (outward "../User") 1 (expecting [200])).state.disk.find?
          ["User", "split_0_page_0.json"] = some (.file [52]) ∧
        (p.result (outward "../User") 1 (expecting [200])).state.disk.find?
          ["User", "manifest.json"] = some (.file (Text.bytesOf m.text)) ∧
        ¬ (expecting [200]).disk.target "out" <+: ["User"] := by
  refine ⟨?_, by decide +kernel, ?_⟩
  · exact ((stays_inside_iff_staysBelow (outward "a/../User") 1 [⟨1, 1, 1⟩] (expecting [200])).1
      _ .ran).2 (by decide +kernel)
  · have hstart := Works.refl (x := outward "../User")
      (p := .start ((outward "../User").prepared (expecting [200])) [⟨1, 1, 1⟩] 1)
    have hbegun := (hstart.snoc (.claim (by decide) rfl)).snoc (.advance (i := 0) rfl (.begin rfl))
    have hasked := hbegun.snoc (.advance (i := 0)
      (show _ = some (.between (startRecord 0 ⟨1, 1, 1⟩) [⟨0, 1⟩]) from rfl) (.ask rfl))
    have hgranted := hasked.snoc (.advance (i := 0) rfl
      (.grant (show _ = Except.ok ⟨200, "", none, [52]⟩ from by decide +kernel)))
    have hsaved := hgranted.snoc (.advance (i := 0) rfl (.save (by decide +kernel)))
    have hworks := (hsaved.snoc (.advance (i := 0) rfl .finish)).snoc (.retire (by decide) rfl)
    obtain ⟨turns, p, hconducts, hpage, disk, hwrite⟩ :
        ∃ turns p, (outward "../User").Conducts [⟨1, 1, 1⟩] (expecting [200]) 1 turns p ∧
          (p.result (outward "../User") 1 (expecting [200])).state.disk.find?
            ["User", "split_0_page_0.json"] = some (.file [52]) ∧
          ∃ disk, p.site.disk.write (outward "../User").manifestPath
            (Text.bytesOf (p.manifest (outward "../User") 1 (expecting [200])).text) = .ok disk :=
      ⟨_, _, ⟨by decide +kernel, hworks, by decide, by decide⟩, by decide +kernel, _,
        Disk.write_eq_ok_iff.mpr
          ⟨["User", "manifest.json"], by decide +kernel, by decide +kernel, rfl⟩⟩
    have hm : (p.result (outward "../User") 1 (expecting [200])).value = .ok _ :=
      congrArg Act.Result.value (run_conclude_of_ok hwrite)
    obtain ⟨hfound, hiff⟩ :=
      (stays_inside_iff_staysBelow (outward "../User") 1 [⟨1, 1, 1⟩] (expecting [200])).2 1 _ _ _
        hconducts.works hm
    have htarget : (expecting [200]).disk.target (outward "../User").directory = ["User"] := by
      decide +kernel
    rw [htarget] at hfound hiff
    refine ⟨turns, p, _, hconducts, hm, hpage, hfound, fun hinside ↦ ?_⟩
    exact absurd ((hiff "out" (by decide +kernel) (by decide +kernel)).mp hinside)
      (by decide +kernel)

end Harvest.Extraction
