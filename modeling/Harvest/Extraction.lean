import Harvest.ByteSize
import Harvest.Disk.Basic
import Harvest.Manifest.Text
import Harvest.Plan.Name
import Harvest.Queue
import Harvest.Service.Basic
import Harvest.Text.Grouped

/-!
# Extractions

An extraction fetches the pages of the splits of a plan and writes each into a file of its own. A
split ends with the first page that fails, and the others carry on. Before each page, and before
each split that is taken up, the extraction looks whether it is to stop. What became of the splits
is written down in a manifest.
Design: `SPEC_FULL.md:146–148,263–272`.
-/

namespace Harvest

/-- A world together with the disk that pages are written to. -/
structure Site (σ : Type) where
  world : World σ
  disk : Disk

/-- What an extraction reads off the peer: whether it is to stop, and the time. -/
structure Watch (σ : Type) where
  isStopped : σ → Bool
  now : σ → Instant
  /-- What becomes of the peer until it is looked at: a stop may come between any two looks. -/
  wait : σ → σ := id

/-- Whether a peer is to be stopped, and what has become of it meanwhile. -/
def Watch.look {σ : Type} (w : Watch σ) (peer : σ) : Bool × σ :=
  (w.isStopped (w.wait peer), w.wait peer)

/-- An extraction from a service into a directory. Design: `SPEC_FULL.md:263–272`. -/
structure Extraction (σ : Type) where
  service : Service σ
  outputDir : String
  /-- The number of workers that share the splits. -/
  workers : Nat
  watch : Watch σ
  /-- Build a pool of a number of workers, or tell why there is none. -/
  buildPool : Nat → Except String Unit := fun _ ↦ .ok ()

namespace Extraction

open Manifest (Record)
open Plan (Page Split)

variable {σ α : Type}

/-- Act on the world of a site. -/
def inWorld (act : Act (World σ) α) : Act (Site σ) α :=
  act.on Site.world fun world site ↦ { site with world }

/-- Change the disk of a site; what fails leaves it as it is. -/
def onDisk (change : Disk → Except Disk.Fault Disk) :
    Act (Site σ) (Except Service.Error Unit) :=
  Act.step fun site ↦
    match change site.disk with
    | .ok disk => (.ok (), { site with disk })
    | .error fault => (.error (.io fault.message), site)

/-- Look whether to stop. Design: `SPEC_FULL.md:146–148`. -/
def look (watch : Watch σ) : Act (Site σ) Bool := inWorld (Token.onPeer (Act.step watch.look))

/-- Whether the extraction is to stop. -/
def isStopped (x : Extraction σ) : Act (Site σ) Bool := look x.watch

/-- The time. -/
def now (x : Extraction σ) : Act (Site σ) Instant := do
  return x.watch.now (← Act.get).world.peer

/-- The entity that is extracted. -/
def entity (x : Extraction σ) : String := x.service.endpoints.query.entity

/-- The directory that the pages of the entity go into. Design: `SPEC_FULL.md:267–268`. -/
def directory (x : Extraction σ) : String := Disk.join x.outputDir x.entity

/-! ## Pages -/

/-- The path of the file of a page. Design: `SPEC_FULL.md:267–268`. -/
def pagePath (dir : String) (split page : Nat) : String :=
  Disk.join dir (Plan.pageFileName split page)

/-- The path that a file is written to before it takes its place. -/
def draftPath (path : String) : String := path ++ ".tmp"

/-- Write a page to its draft, which then takes the place of the file. -/
def writePage (dir : String) (split page : Nat) (body : Text.Bytes) :
    Act (Site σ) (Except Service.Error Unit) := do
  let path := pagePath dir split page
  match ← onDisk (·.write (draftPath path) body) with
  | .error e => return .error e
  | .ok () => onDisk (·.rename (draftPath path) path)

/-- Fetch a page and write it: the number of its bytes. -/
def savePage (x : Extraction σ) (split number : Nat) (page : Page) :
    Act (Site σ) (Except Service.Error Nat) := do
  match ← inWorld (x.service.fetchPage page) with
  | .error e => return .error e
  | .ok response =>
    match ← writePage x.directory split number response.body with
    | .error e => return .error e
    | .ok () => return .ok response.body.length

/-! ## Splits -/

/-- The record of a split of which nothing has been fetched. -/
def startRecord (index : Nat) (split : Split) : Record where
  index := index
  first := split.first
  last := split.last
  batch := split.batch
  pages := 0
  bytes := 0
  outcome := .completed

/-- A record with one more page. -/
def countPage (record : Record) (bytes : Nat) : Record :=
  { record with pages := record.pages + 1, bytes := record.bytes + bytes }

/-- End a split before its next page. -/
def interrupt (record : Record) : Act (Site σ) Record := do
  Act.report .warn .extraction
    s!"split {record.index}: shutdown requested after {record.pages} pages"
  return { record with outcome := .interrupted }

/-- End a split at a page that failed. -/
def fail (record : Record) (page : Page) (e : Service.Error) : Act (Site σ) Record := do
  Act.report .error .extraction
    s!"split {record.index}: page {record.pages} (skip {page.skip}) failed: {e.message}"
  return { record with outcome := .failed e.message }

/-- Fetch the rest of the pages of a split; the record counts those that are done.
Design: `SPEC_FULL.md:267–269`. -/
def fetchPages (x : Extraction σ) (record : Record) : List Page → Act (Site σ) Record
  | [] => do
    Act.report .debug .extraction s!"split {record.index}: done, {record.pages} pages"
    return record
  | page :: pages => do
    if ← x.isStopped then interrupt record
    else
      match ← x.savePage record.index record.pages page with
      | .error e => fail record page e
      | .ok bytes => x.fetchPages (countPage record bytes) pages

/-- Fetch the pages of a split. Design: `SPEC_FULL.md:267–269`. -/
def fetchSplit (x : Extraction σ) (index : Nat) (split : Split) : Act (Site σ) Record := do
  Act.report .debug .extraction
    s!"split {index}: records {split.first}..={split.last} in pages of {split.batch}"
  x.fetchPages (startRecord index split) split.pages

/-- Fetch splits as they are claimed; those behind a stop are not taken up.
Design: `SPEC_FULL.md:264–269`. -/
def fetchSplits (x : Extraction σ) : List (Nat × Split) → Act (Site σ) (List Record)
  | [] => pure []
  | (index, split) :: rest => do
    if ← x.isStopped then return []
    else
      let record ← x.fetchSplit index split
      return record :: (← x.fetchSplits rest)

/-! ## Runs -/

/-- The number of workers that are of use for some splits. Design: `SPEC_FULL.md:264–266`. -/
def usefulWorkers (x : Extraction σ) (splits : Nat) : Nat := min (max x.workers 1) (max splits 1)

/-- Make the directory of the entity. -/
def prepare (x : Extraction σ) : Act (Site σ) (Except Service.Error Unit) :=
  Act.step fun site ↦
    let (made, disk) := site.disk.makeDirectories x.directory
    (made.mapError (.io ·.message), { site with disk })

/-- The path of the manifest. -/
def manifestPath (x : Extraction σ) : String := Disk.join x.directory Manifest.fileName

/-- What is reported of an extraction that is over. -/
def closingText (m : Manifest) : String :=
  s!"Wrote {Text.grouped m.totalPages} pages ({ByteSize.text m.totalBytes}) for {m.entity}; " ++
    s!"{m.failures} split(s) failed"

/-- Records in the order of their splits. -/
def inOrder (records : List Record) : List Record := records.mergeSort (·.index ≤ ·.index)

/-- Write the manifest. Design: `SPEC_FULL.md:270–272`. -/
def conclude (x : Extraction σ) (m : Manifest) :
    Act (Site σ) (Except Service.Error Manifest) := do
  match ← onDisk (·.write x.manifestPath (Text.bytesOf m.text)) with
  | .error e => return .error e
  | .ok () =>
    Act.report .info .extraction (closingText m)
    return .ok m

/-- Build a pool of workers, let them fetch the splits that a queue hands out, and write the
manifest. Design: `SPEC_FULL.md:264–272`. -/
def extract (x : Extraction σ) (available : Nat) (queue : Queue Split) :
    Act (Site σ) (Except Service.Error Manifest) := do
  let started ← x.now
  Act.report .info .extraction
    (s!"Extracting {queue.total} splits of {x.entity} with " ++
      s!"{x.usefulWorkers queue.total} workers into {x.directory}")
  match x.buildPool (x.usefulWorkers queue.total) with
  | .error detail => return .error (.workerPool detail)
  | .ok () =>
    let records ← x.fetchSplits queue.waiting
    x.conclude { entity := x.entity, baseUrl := x.service.baseText, available,
                 splits := inOrder records, started, finished := ← x.now }

/-- Extract the splits of a plan: the manifest, or why there is none.
Design: `SPEC_FULL.md:263–272`. -/
def run (x : Extraction σ) (available : Nat) (splits : List Split) :
    Act (Site σ) (Except Service.Error Manifest) := do
  match ← x.prepare with
  | .error e => return .error e
  | .ok () => x.extract available (Queue.ofList splits)

end Extraction

end Harvest
