import Harvest.Manifest.File
import Harvest.Proofs.Disk.Change
import Harvest.Proofs.Extraction.Steps
import Harvest.Proofs.Instant.Writable
import Harvest.Proofs.Json.Entries
import Harvest.Proofs.Json.Results
import Harvest.Proofs.Plan.Name
import Mathlib.Data.List.Forall2

/-!
# A manifest that was written is read back

A manifest is kept as an object whose entries stand in the order of its fields, and a record as one
that ends with the entries of its outcome. Each entry is read back from its own text, so the whole
is, as far as numbers of 64 bits and instants with a date reach. Reading gives nothing beyond that,
whatever order the entries stand in and whatever else stands among them, so a manifest that was read
can be written and read once more.
Design: `SPEC_FULL.md:270–272`.
-/

namespace Harvest.Manifest

open Json (Value Gets Enters)
open Text (encode)

/-! ## What can be stored -/

/-- A record whose numbers have 64 bits. -/
structure Record.IsStorable (r : Record) : Prop where
  index : r.index ≤ Json.greatestNat
  first : r.first ≤ Json.greatestNat
  last : r.last ≤ Json.greatestNat
  batch : r.batch ≤ Json.greatestNat
  pages : r.pages ≤ Json.greatestNat
  bytes : r.bytes ≤ Json.greatestNat

/-- A manifest whose numbers have 64 bits and whose instants can be written. -/
structure IsStorable (m : Manifest) : Prop where
  available : m.available ≤ Json.greatestNat
  splits : ∀ r ∈ m.splits, r.IsStorable
  started : m.started.IsWritable
  finished : m.finished.IsWritable

variable {depth level : Nat}

/-! ## Outcomes -/

/-- An outcome is found in its entries. -/
theorem ofEntries_entries (o : Outcome) : Outcome.ofEntries o.entries = .ok o := by
  cases o <;> rfl

/-! ## Records -/

private theorem gets_nat {n : Nat} (h : n ≤ Json.greatestNat) (expected : String) :
    Gets (Json.natural expected) ((Value.number (.nat n)).prettyChars level) n := by
  have hchars : (Value.number (.nat n)).prettyChars level = Nat.toDigits 10 n := by
    rw [Value.prettyChars]
    exact Nat.toList_repr
  rw [hchars]
  exact Json.gets_natural expected h

/-- An entry with a number of a record is kept among the numbers. -/
theorem Enters.number {name expected : String} {n : Nat} {es : List (String × Value)}
    {r final : PartialRecord} (hname : recordFields.lookup name = some expected)
    (hset : r.numbers.lookup name = none) (h : n ≤ Json.greatestNat)
    (hrest : Enters (readEntry depth) level es { r with numbers := (name, n) :: r.numbers } final) :
    Enters (readEntry depth) level ((name, .number (.nat n)) :: es) r final := by
  refine .cons ?_ ((gets_nat h expected).map fun n ↦
    { r with numbers := (name, n) :: r.numbers }) hrest
  simp only [readEntry, hname, hset]
  rfl

/-- Another entry of a record is kept among the others. -/
theorem Enters.other {name text : String} {es : List (String × Value)} {r final : PartialRecord}
    (hname : recordFields.lookup name = none)
    (hrest : Enters (readEntry depth) level es { r with others := (name, .string text) :: r.others }
      final) :
    Enters (readEntry depth) level ((name, .string text) :: es) r final := by
  refine .cons ?_ ((Json.gets_value_string depth text).map fun v ↦
    { r with others := (name, v) :: r.others }) hrest
  simp only [readEntry, hname]
  rfl

private theorem enters_outcome (o : Outcome) (numbers : List (String × Nat)) :
    Enters (readEntry depth) level o.entries ⟨numbers, []⟩ ⟨numbers, o.entries.reverse⟩ := by
  cases o with
  | completed => exact Enters.other rfl (.nil _)
  | failed error => exact Enters.other rfl (Enters.other rfl (.nil _))
  | interrupted => exact Enters.other rfl (.nil _)

/-- The numbers of a record, the last one first. -/
def Record.numbers (r : Record) : List (String × Nat) :=
  [("bytes", r.bytes), ("pages", r.pages), ("batch_size", r.batch), ("end", r.last),
    ("start", r.first), ("index", r.index)]

private theorem finish_record (r : Record) :
    (PartialRecord.mk r.numbers r.outcome.entries.reverse).finish = .ok r := by
  simp only [PartialRecord.finish, List.reverse_reverse, ofEntries_entries]
  rfl

/-- A record is read back. -/
theorem gets_readRecord {r : Record} (h : r.IsStorable) :
    Gets (readRecord (depth + 1)) (r.value.prettyChars level) r := by
  have henters : Enters (readEntry depth) (level + 1) _ ⟨[], []⟩
      ⟨r.numbers, r.outcome.entries.reverse⟩ :=
    Enters.number rfl rfl h.index <| Enters.number rfl rfl h.first <|
      Enters.number rfl rfl h.last <| Enters.number rfl rfl h.batch <|
      Enters.number rfl rfl h.pages <| Enters.number rfl rfl h.bytes <|
      enters_outcome r.outcome r.numbers
  intro blanks rest hblanks _
  rw [Record.value, List.cons_append, Json.encode_object_cons, readRecord,
    Json.Reader.bind_of_ok (Json.startOfValue_append hblanks rfl), Json.Reader.left_bind]
  refine Json.settle_of_ok (Json.object_eq henters ?_ (Json.length_lt_contents ..) rest)
  rw [finish_record]

private theorem opens_value (level : Nat) (r : Record) :
    Json.Opens (r.value.prettyChars level) := by
  rw [Record.value, List.cons_append]
  obtain ⟨bytes, hbytes⟩ : ∃ bytes, encode ((Value.object _).prettyChars level) ++ [] =
      Json.byte '\x7b' :: bytes := ⟨_, Json.encode_object_cons ..⟩
  rw [List.append_nil] at hbytes
  exact ⟨_, _, hbytes, rfl, by decide⟩

/-! ## Instants -/

private theorem gets_readInstant {i : Instant} (h : i.IsWritable) :
    Gets readInstant (Json.stringChars i.text) i := by
  rw [Json.stringChars, List.cons_append]
  refine .of_start (by decide) rfl fun rest _ ↦ ?_
  rw [if_pos rfl, Json.Reader.advance_bind_cons,
    Json.Reader.bind_of_ok (Json.restOfString_append i.text rest), Instant.parse_text h]
  rfl

/-! ## Manifests -/

/-- The fields of a manifest when all of them have been read. -/
def fields (m : Manifest) : Partial :=
  ⟨some m.entity, some m.baseUrl, some m.available, some m.splits, some m.started, some m.finished⟩

/-- A manifest is read back. -/
theorem gets_shape {m : Manifest} (h : m.IsStorable) :
    Gets (shape.read (depth + 3)) (m.value.prettyChars level) m := by
  have hsplits : Json.GetsAll (readRecord (depth + 1)) (level + 2) (m.splits.map Record.value)
      m.splits := by
    rw [Json.GetsAll, List.forall₂_map_left_iff, List.forall₂_same]
    exact fun r hr ↦ ⟨opens_value (level + 2) r, gets_readRecord (h.splits r hr)⟩
  have hfinish : shape.finish m.fields = .ok m := rfl
  rw [value]
  refine Json.Shape.gets_object ?_ hfinish
  have hentity := (Json.gets_string m.entity).map fun v (p : Partial) ↦ { p with entity := some v }
  have hbase := (Json.gets_string m.baseUrl).map fun v (p : Partial) ↦ { p with baseUrl := some v }
  refine .field rfl rfl hentity (.field rfl rfl hbase ?_)
  refine .field rfl rfl ((gets_nat h.available "u64").map fun v (p : Partial) ↦
    { p with available := some v }) ?_
  refine .field rfl rfl ((Json.gets_listOf hsplits).map fun v (p : Partial) ↦
    { p with splits := some v }) ?_
  refine .field rfl rfl ((gets_readInstant h.started).map fun v (p : Partial) ↦
    { p with started := some v }) ?_
  refine .field rfl rfl ((gets_readInstant h.finished).map fun v (p : Partial) ↦
    { p with finished := some v }) ?_
  exact .nil _

/-- The text of a manifest is read as that manifest. -/
theorem parse_text {m : Manifest} (h : m.IsStorable) : parse (Text.bytesOf m.text) = .ok m := by
  have hread : Json.readAll (shape.read Json.depthLimit) (encode (m.value.prettyChars 0)) = .ok m :=
    (gets_shape h).readAll_encode
  rw [parse, Text.bytesOf, text, Value.pretty, String.toList_ofList, hread]
  rfl

/-! ## What is read -/

open Json (Gives)

section Steps

variable {ε ε' α β : Type} {x : Except ε α} {a : α}

/-- A computation behind another one succeeds where both do. -/
theorem bind_eq_ok {f : α → Except ε β} {b : β} :
    x >>= f = .ok b ↔ ∃ a, x = .ok a ∧ f a = .ok b := by
  cases x <;> simp [bind, Except.bind]

/-- Turning errors into others leaves success as it is. -/
theorem mapError_eq_ok {f : ε → ε'} : x.mapError f = .ok a ↔ x = .ok a := by
  cases x <;> simp [Except.mapError]

private theorem require_eq_ok {name : String} {a? : Option α} :
    Json.require name a? = .ok a ↔ a? = some a := by
  cases a? <;> simp [Json.require]

end Steps

/-- The numbers that have been read have 64 bits. -/
def PartialRecord.IsShort (r : PartialRecord) : Prop :=
  ∀ name n, r.numbers.lookup name = some n → n ≤ Json.greatestNat

private theorem readEntry_gives {r : PartialRecord} (h : r.IsShort) (name : String) :
    Gives (readEntry depth name r) PartialRecord.IsShort := by
  rw [readEntry]
  split
  · split
    · exact Json.gives_fail _
    · refine Json.gives_bind fun _ ↦ (Json.natural_gives _).bind fun n hn ↦ Json.gives_pure ?_
      intro other k hk
      rw [List.lookup_cons] at hk
      split at hk
      · cases hk
        exact hn
      · exact h other k hk
  · exact Json.gives_bind fun _ ↦ Json.gives_bind fun v ↦ Json.gives_pure h

private theorem isStorable_of_finish {r : PartialRecord} (h : r.IsShort) {record : Record}
    (hfinish : r.finish = .ok record) : record.IsStorable := by
  simp only [PartialRecord.finish, bind_eq_ok, require_eq_ok] at hfinish
  obtain ⟨index, hindex, first, hfirst, last, hlast, batch, hbatch, pages, hpages, bytes, hbytes,
    outcome, -, ⟨⟩⟩ := hfinish
  exact ⟨h _ _ hindex, h _ _ hfirst, h _ _ hlast, h _ _ hbatch, h _ _ hpages, h _ _ hbytes⟩

private theorem readRecord_gives (depth : Nat) : Gives (readRecord depth) Record.IsStorable := by
  refine Json.gives_bind fun b ↦ Json.gives_bind fun input ↦ ?_
  simp only
  split
  · refine (Json.object_gives (fun depth ↦ ?_) depth).settle
    have hstart : PartialRecord.IsShort ⟨[], []⟩ := by simp [PartialRecord.IsShort]
    refine (Json.entries_gives (fun name _ h ↦ readEntry_gives h name) _ true hstart).bind
      fun r hr ↦ ?_
    split
    · next record hfinish => exact Json.gives_pure (isStorable_of_finish hr hfinish)
    · exact Json.gives_fail _
  · exact Json.unexpected_gives

private theorem readInstant_gives : Gives readInstant Instant.IsWritable := by
  refine Json.gives_bind fun b ↦ ?_
  split
  · refine Json.gives_bind fun _ ↦ Json.gives_bind fun text ↦ ?_
    split
    · next i hparse => exact Json.gives_pure (Instant.isWritable_of_parse hparse)
    · exact (Json.gives_fail _).settle
  · exact Json.unexpected_gives

/-- The fields that have been read can be stored. -/
structure Partial.IsStorable (p : Partial) : Prop where
  available : ∀ n, p.available = some n → n ≤ Json.greatestNat
  splits : ∀ rs, p.splits = some rs → ∀ r ∈ rs, r.IsStorable
  started : ∀ i, p.started = some i → i.IsWritable
  finished : ∀ i, p.finished = some i → i.IsWritable

private theorem keeps_shape : shape.Keeps Partial.IsStorable IsStorable where
  start := by constructor <;> simp [shape]
  field := by
    intro field hfield depth
    simp only [shape, List.mem_cons, List.not_mem_nil, or_false] at hfield
    rcases hfield with rfl | rfl | rfl | rfl | rfl | rfl
    · exact (Json.gives_trivial _).map fun v _ p h ↦ { h with }
    · exact (Json.gives_trivial _).map fun v _ p h ↦ { h with }
    · exact (Json.natural_gives _).map fun v hv p h ↦ { h with available := by simpa using hv }
    · exact (Json.listOf_gives readRecord_gives depth).map fun v hv p h ↦
        { h with splits := by simpa using hv }
    · exact readInstant_gives.map fun v hv p h ↦ { h with started := by simpa using hv }
    · exact readInstant_gives.map fun v hv p h ↦ { h with finished := by simpa using hv }
  finish := by
    intro p m h hfinish
    simp only [shape, Partial.finish, bind_eq_ok, require_eq_ok] at hfinish
    obtain ⟨entity, -, baseUrl, -, available, havailable, splits, hsplits, started, hstarted,
      finished, hfinished, ⟨⟩⟩ := hfinish
    exact ⟨h.available _ havailable, h.splits _ hsplits, h.started _ hstarted,
      h.finished _ hfinished⟩

/-- What is read as a manifest can be stored. -/
theorem isStorable_of_parse {bytes : Text.Bytes} {m : Manifest} (h : parse bytes = .ok m) :
    m.IsStorable := by
  rw [parse, mapError_eq_ok] at h
  exact (keeps_shape.gives Json.depthLimit).of_readAll h

/-! ## Files -/

variable {d e : Disk} {directory : String} {m : Manifest}

/-- Reading a file that is a text is reading that text. -/
theorem readFrom_of_read {text : String}
    (h : d.read (pathIn directory) = .ok (Text.bytesOf text)) :
    readFrom directory d = parse (Text.bytesOf text) := by
  have hdecode : Text.decode (Text.bytesOf text) = some text.toList := Text.decode_encode _
  simp only [readFrom, h, Except.mapError, bind, Except.bind, hdecode]

/-- What is read comes from a file, whose bytes are those of a manifest. -/
theorem exists_of_readFrom (h : readFrom directory d = .ok m) :
    ∃ bytes, d.read (pathIn directory) = .ok bytes ∧ parse bytes = .ok m := by
  simp only [readFrom, bind_eq_ok, mapError_eq_ok] at h
  obtain ⟨bytes, hread, h⟩ := h
  split at h
  · cases h
  · exact ⟨bytes, hread, h⟩

private theorem isStorable_of_readFrom (h : readFrom directory d = .ok m) : m.IsStorable := by
  obtain ⟨bytes, -, hparse⟩ := exists_of_readFrom h
  exact isStorable_of_parse hparse

/-- A manifest can be written over one that can be read. -/
theorem exists_writeTo_of_readFrom {old : Manifest} (h : readFrom directory d = .ok old)
    (m : Manifest) : ∃ e, m.writeTo directory d = .ok e := by
  obtain ⟨bytes, hread, -⟩ := exists_of_readFrom h
  obtain ⟨place, hplace, hfile, -⟩ := Disk.read_eq_ok_iff.mp hread
  have hdir : d.isDirectoryAt place = false := by simp [Disk.isDirectoryAt, hfile]
  exact ⟨_, Disk.write_eq_ok_iff.mpr ⟨place, hplace, hdir, rfl⟩⟩

private theorem read_of_writeTo (h : m.writeTo directory d = .ok e) :
    e.read (pathIn directory) = .ok (Text.bytesOf m.text) :=
  Disk.read_of_write h (Disk.getLast?_join Plan.isPlain_manifest)

/-- What can be stored is read back from where it was written. -/
theorem readFrom_of_writeTo (hstorable : m.IsStorable) (h : m.writeTo directory d = .ok e) :
    readFrom directory e = .ok m :=
  (readFrom_of_read (read_of_writeTo h)).trans (parse_text hstorable)

/-- The manifest that an extraction gives is read back from the directory of its pages. -/
theorem readFrom_of_run {σ : Type} {x : Extraction σ} {available : Nat} {splits : List Plan.Split}
    {site : Site σ} (hstorable : m.IsStorable)
    (h : ((x.run available splits).run site).value = .ok m) :
    readFrom x.directory ((x.run available splits).run site).state.disk = .ok m := by
  obtain ⟨-, -, disk, hwrite, hstate⟩ := Extraction.run_ok h
  rw [hstate]
  exact readFrom_of_writeTo hstorable hwrite

/-- What is read can be written over the file that it is from, is read back from wherever it is
written, and is the same text when it is written there once more. Whatever can be stored is read
back from where it was written. -/
theorem readFrom_writeTo :
    (∀ directory d m, readFrom directory d = .ok m →
      (∃ e, m.writeTo directory d = .ok e) ∧
      ∀ directory' d' e, m.writeTo directory' d' = .ok e →
        ∃ again, readFrom directory' e = .ok again ∧ again = m ∧
          ∃ e', again.writeTo directory' e = .ok e' ∧
            e'.read (pathIn directory') = e.read (pathIn directory')) ∧
    ∀ m : Manifest, m.IsStorable →
      ∀ directory d e, m.writeTo directory d = .ok e → readFrom directory e = .ok m := by
  refine ⟨fun directory d m hread ↦ ⟨exists_writeTo_of_readFrom hread m, ?_⟩,
    fun m hstorable directory d e ↦ readFrom_of_writeTo hstorable⟩
  intro directory' d' e hwrite
  have hback : readFrom directory' e = .ok m :=
    readFrom_of_writeTo (isStorable_of_readFrom hread) hwrite
  obtain ⟨e', hagain⟩ := exists_writeTo_of_readFrom hback m
  refine ⟨m, hback, rfl, e', hagain, ?_⟩
  rw [read_of_writeTo hagain, read_of_writeTo hwrite]

/-- A text with its fields in another order, one that is no field, an escape and a leap second at an
offset; and a manifest with the greatest number and a failure that takes escapes. -/
theorem readFrom_writeTo_reordered :
    let text := "\x7b\"splits\":[],\"x\":[],\"entity\":\"\\u0041\",\"base_url\":\"\"," ++
      "\"available\":3,\"started_at\":\"2024-03-01T00:59:60.5+01:00\"," ++
      "\"finished_at\":\"1970-01-01 00:00:00Z\"\x7d"
    let m : Manifest := ⟨"A", "", 3, [], ⟨19782, 86399, 1500000000⟩, ⟨0, 0, 0⟩⟩
    let n : Manifest :=
      { m with splits := [⟨0, 1, 3, 2, 1, 18446744073709551615, .failed "\"😀\x07"⟩] }
    let d (content : String) : Disk := ⟨[(["manifest.json"], .file (Text.bytesOf content))], []⟩
    readFrom "/" (d text) = .ok m ∧ readFrom "/" (d m.text) = .ok m ∧
      n.IsStorable ∧ readFrom "/" (d n.text) = .ok n := by
  intro text m n d
  have hwrite (m : Manifest) : m.writeTo "/" (d text) = .ok (d m.text) := rfl
  have hfile (content : String) :
      (d content).read (pathIn "/") = .ok (Text.bytesOf content) := rfl
  have hparse : parse (Text.bytesOf text) = .ok m := by decide +kernel
  have hread : readFrom "/" (d text) = .ok m := (readFrom_of_read (hfile text)).trans hparse
  have hstorable : n.IsStorable :=
    ⟨by decide, by
      rw [List.forall_mem_singleton]
      constructor <;> decide, by decide +kernel, by decide +kernel⟩
  obtain ⟨-, hwritten⟩ := readFrom_writeTo.1 "/" (d text) m hread
  obtain ⟨again, hagain, hm, -⟩ := hwritten "/" (d text) (d m.text) (hwrite m)
  have hback : readFrom "/" (d n.text) = .ok n :=
    readFrom_writeTo.2 n hstorable "/" (d text) (d n.text) (hwrite n)
  exact ⟨hread, hagain.trans (congrArg Except.ok hm), hstorable, hback⟩

end Harvest.Manifest
