import Harvest.Extraction
import Harvest.Proofs.Queue.Claims

/-!
# Steps of an extraction

What one look, one page, one split and the run as a whole come to. Everything else about
extractions is derived from these equations.
-/

namespace Harvest

namespace Extraction

open Manifest (Record)
open Plan (Page Split)

variable {σ : Type} {x : Extraction σ} {s : Site σ}

/-! ## Looks -/

/-- Whether a look at a site finds that the extraction is to stop. -/
def stops (x : Extraction σ) (s : Site σ) : Bool := (x.watch.look s.world.peer).1

/-- A site after a look. -/
def looked (x : Extraction σ) (s : Site σ) : Site σ :=
  { s with world := { s.world with peer := (x.watch.look s.world.peer).2 } }

/-- A look changes nothing but the peer, and leaves no trace. -/
theorem run_isStopped (x : Extraction σ) (s : Site σ) :
    x.isStopped.run s = ⟨x.stops s, [], x.looked s⟩ := rfl

/-! ## Disks -/

section

variable {change : Disk → Except Disk.Fault Disk}

/-- A change of the disk that succeeds changes nothing else. -/
theorem run_onDisk_ok {disk : Disk} (h : change s.disk = .ok disk) :
    (onDisk change).run s = ⟨.ok (), [], { s with disk }⟩ := by
  simp [onDisk, Act.step, Act.run, h]

/-- A change of the disk that fails changes nothing. -/
theorem run_onDisk_error {fault : Disk.Fault} (h : change s.disk = .error fault) :
    (onDisk change).run s = ⟨.error (.io fault.message), [], s⟩ := by
  simp [onDisk, Act.step, Act.run, h]

end

/-! ## Pages -/

section

variable {record : Record} {page : Page} {pages : List Page}

/-- A split of which no page is left is done. -/
theorem fetchPages_nil (x : Extraction σ) (record : Record) (s : Site σ) :
    ((x.fetchPages record []).run s).value = record ∧
      ((x.fetchPages record []).run s).state = s := ⟨rfl, rfl⟩

/-- A stop before a page ends the split. -/
theorem fetchPages_of_stops (h : x.stops s = true) :
    (x.fetchPages record (page :: pages)).run s = (interrupt record).run (x.looked s) := by
  simp [fetchPages, Act.run_bind, run_isStopped, h]

/-- A page that is not saved ends the split. -/
theorem fetchPages_of_error {e : Service.Error} (h : x.stops s = false)
    (he : ((x.savePage record.index record.pages page).run (x.looked s)).value = .error e) :
    (x.fetchPages record (page :: pages)).run s =
      let saved := (x.savePage record.index record.pages page).run (x.looked s)
      let failed := (fail record page e).run saved.state
      ⟨failed.value, saved.trace ++ failed.trace, failed.state⟩ := by
  simp [fetchPages, Act.run_bind, run_isStopped, h, he]

/-- A page that is saved is counted, and the next one is taken up. -/
theorem fetchPages_of_ok {bytes : Nat} (h : x.stops s = false)
    (hok : ((x.savePage record.index record.pages page).run (x.looked s)).value = .ok bytes) :
    (x.fetchPages record (page :: pages)).run s =
      let saved := (x.savePage record.index record.pages page).run (x.looked s)
      let rest := (x.fetchPages (countPage record bytes) pages).run saved.state
      ⟨rest.value, saved.trace ++ rest.trace, rest.state⟩ := by
  simp [fetchPages, Act.run_bind, run_isStopped, h, hok]

end

/-! ## Splits -/

section

variable {index : Nat} {split : Split} {claimed : List (Nat × Split)}

/-- A split is fetched page by page from its first one on. -/
theorem fetchSplit_eq (x : Extraction σ) (index : Nat) (split : Split) (s : Site σ) :
    ((x.fetchSplit index split).run s).value =
        ((x.fetchPages (startRecord index split) split.pages).run s).value ∧
      ((x.fetchSplit index split).run s).state =
        ((x.fetchPages (startRecord index split) split.pages).run s).state := ⟨rfl, rfl⟩

/-- Where a stop is seen before a split, neither it nor any split behind it is taken up. -/
theorem fetchSplits_of_stops (h : x.stops s = true) :
    (x.fetchSplits ((index, split) :: claimed)).run s = ⟨[], [], x.looked s⟩ := by
  simp [fetchSplits, Act.run_bind, run_isStopped, h]

/-- Where no stop is seen before a split, it is fetched, and then those behind it. -/
theorem fetchSplits_of_not_stops (h : x.stops s = false) :
    (x.fetchSplits ((index, split) :: claimed)).run s =
      let first := (x.fetchSplit index split).run (x.looked s)
      let rest := (x.fetchSplits claimed).run first.state
      ⟨first.value :: rest.value, first.trace ++ rest.trace, rest.state⟩ := by
  simp [fetchSplits, Act.run_bind, run_isStopped, h]

end

/-! ## Runs -/

/-- A site whose directory for the pages has been prepared. -/
def prepared (x : Extraction σ) (s : Site σ) : Site σ := (x.prepare.run s).state

/-- What becomes of a site when the splits of a plan have been fetched. -/
def fetched (x : Extraction σ) (splits : List Split) (s : Site σ) :
    Act.Result (Site σ) (List Record) :=
  (x.fetchSplits (Queue.ofList splits).waiting).run (x.prepared s)

/-- The manifest that a run writes down. -/
def manifest (x : Extraction σ) (available : Nat) (splits : List Split) (s : Site σ) :
    Manifest where
  entity := x.entity
  baseUrl := x.service.baseText
  available := available
  splits := inOrder (x.fetched splits s).value
  started := x.watch.now (x.prepared s).world.peer
  finished := x.watch.now (x.fetched splits s).state.world.peer

/-- Reading the time changes nothing. -/
theorem run_now (x : Extraction σ) (s : Site σ) :
    x.now.run s = ⟨x.watch.now s.world.peer, [], s⟩ := rfl

/-- The workers of a run start: its directory can be prepared, and a pool be built for them. -/
structure Starts (x : Extraction σ) (splits : List Split) (s : Site σ) : Prop where
  prepares : (x.prepare.run s).value = .ok ()
  builds : x.buildPool (x.usefulWorkers splits.length) = .ok ()

/-- Up to its manifest, a run whose pool can be built fetches what its queue hands out. -/
theorem run_extract {splits : List Split}
    (h : x.buildPool (x.usefulWorkers splits.length) = .ok ()) (available : Nat) (s : Site σ) :
    let r := (x.extract available (Queue.ofList splits)).run (x.prepared s)
    let last := (x.conclude (x.manifest available splits s)).run (x.fetched splits s).state
    r.value = last.value ∧ r.state = last.state := by
  rw [← Queue.total_ofList splits] at h
  simp only [extract, h, Act.run_bind, run_now, Act.run_report, manifest, fetched, and_self]

/-- A run whose pool cannot be built ends before the first split is claimed. -/
theorem run_extract_of_error {splits : List Split} {detail : String}
    (h : x.buildPool (x.usefulWorkers splits.length) = .error detail) (available : Nat)
    (s : Site σ) :
    let r := (x.extract available (Queue.ofList splits)).run s
    r.value = .error (.workerPool detail) ∧ Event.effects r.trace = [] ∧ r.state = s := by
  rw [← Queue.total_ofList splits] at h
  simp only [extract, h, Act.run_bind, run_now, Act.run_report, Act.run_pure, List.nil_append,
    List.append_nil, Event.effects_log, and_true, true_and]
  rfl

/-- A manifest that is given has been written. -/
theorem conclude_ok {m given : Manifest} (h : ((x.conclude m).run s).value = .ok given) :
    given = m ∧ ∃ disk, s.disk.write x.manifestPath (Text.bytesOf m.text) = .ok disk ∧
      ((x.conclude m).run s).state = { s with disk } := by
  cases hw : s.disk.write x.manifestPath (Text.bytesOf m.text) with
  | error fault =>
    have hrun : (onDisk (·.write x.manifestPath (Text.bytesOf m.text))).run s =
        ⟨.error (.io fault.message), [], s⟩ := run_onDisk_error hw
    simp [conclude, Act.run_bind, hrun] at h
  | ok disk =>
    have hrun : (onDisk (·.write x.manifestPath (Text.bytesOf m.text))).run s =
        ⟨.ok (), [], { s with disk }⟩ := run_onDisk_ok hw
    simp only [conclude, Act.run_bind, hrun, Act.run_report, Act.run_pure,
      Except.ok.injEq] at h ⊢
    exact ⟨h.symm, disk, rfl, rfl⟩

/-- A run whose directory cannot be prepared fails for that reason. -/
theorem run_of_prepare_error {available : Nat} {splits : List Split} {e : Service.Error}
    (h : (x.prepare.run s).value = .error e) :
    (x.run available splits).run s = ⟨.error e, [], x.prepared s⟩ := by
  have htrace : (x.prepare.run s).trace = [] := rfl
  simp only [Extraction.run, Act.run_bind, h, htrace, Act.run_pure, List.append_nil]
  rfl

/-- A result is made of its parts. -/
private theorem result_eta {τ α : Type} (r : Act.Result τ α) :
    (⟨r.value, r.trace, r.state⟩ : Act.Result τ α) = r := rfl

/-- Where the directory can be prepared, a run goes on from there. -/
theorem run_of_prepared {available : Nat} {splits : List Split}
    (h : (x.prepare.run s).value = .ok ()) :
    (x.run available splits).run s =
      (x.extract available (Queue.ofList splits)).run (x.prepared s) := by
  have hprepared : (x.prepare.run s).state = x.prepared s := rfl
  have htrace : (x.prepare.run s).trace = [] := rfl
  rw [Extraction.run, Act.run_bind, h, hprepared, htrace, List.nil_append, result_eta]

/-- A run that does not start fails, and leaves what the preparation of its directory leaves. -/
theorem starts_or_fails (x : Extraction σ) (available : Nat) (splits : List Split) (s : Site σ) :
    x.Starts splits s ∨
      (∃ e, ((x.run available splits).run s).value = .error e) ∧
        ((x.run available splits).run s).state = x.prepared s := by
  cases hprepare : (x.prepare.run s).value with
  | error e =>
    rw [run_of_prepare_error hprepare]
    exact .inr ⟨⟨e, rfl⟩, rfl⟩
  | ok =>
    rw [run_of_prepared hprepare]
    cases hbuild : x.buildPool (x.usefulWorkers splits.length) with
    | error detail =>
      obtain ⟨hvalue, -, hstate⟩ := run_extract_of_error hbuild available (x.prepared s)
      exact .inr ⟨⟨_, hvalue⟩, hstate⟩
    | ok => exact .inl ⟨hprepare, hbuild⟩

/-- A run that gives a manifest has started, fetched the splits, and written down what has become
of them. -/
theorem run_ok {available : Nat} {splits : List Split} {m : Manifest}
    (h : ((x.run available splits).run s).value = .ok m) :
    x.Starts splits s ∧ m = x.manifest available splits s ∧
      ∃ disk, (x.fetched splits s).state.disk.write x.manifestPath (Text.bytesOf m.text) =
          .ok disk ∧
        ((x.run available splits).run s).state = { (x.fetched splits s).state with disk } := by
  obtain hstarts | ⟨⟨e, hvalue⟩, -⟩ := x.starts_or_fails available splits s
  · rw [run_of_prepared hstarts.prepares] at h ⊢
    obtain ⟨hvalue, hstate⟩ := run_extract hstarts.builds available s
    rw [hvalue] at h
    rw [hstate]
    obtain ⟨rfl, hdisk⟩ := conclude_ok h
    exact ⟨hstarts, rfl, hdisk⟩
  · rw [hvalue] at h
    cases h

end Extraction

end Harvest
