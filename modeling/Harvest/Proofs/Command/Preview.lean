import Harvest.Command.Fetch
import Harvest.Proofs.Settings.Usable

/-!
# A shown plan is the plan that is extracted

Numbers on the command line take the place of configured ones: for a plan that is shown they
override those of a request, for an extraction they become settings that a request is made from. The
two requests are the same, so an extraction hands on the splits that are shown for the number of
records that it counts, or fails as showing them does.
Design: `SPEC_FULL.md:274–275`.
-/

namespace Harvest.Command

open Plan (Split)

variable {α β : Type} {site state : Site Http.Server} {trace : List Event}

/-! ## Steps one after another -/

/-- A step behind one that gave a value. -/
theorem run_bind_of_ok {step : Step α} {next : α → Step β} {a : α}
    (h : step.run.run site = ⟨.ok a, trace, state⟩) :
    (step >>= next).run.run site =
      ⟨((next a).run.run state).value, trace ++ ((next a).run.run state).trace,
        ((next a).run.run state).state⟩ := by
  simp only [ExceptT.run_bind, Act.run_bind, h]

/-- A step that failed ends what it is a step of. -/
theorem run_bind_of_error {step : Step α} {next : α → Step β} {f : Failure}
    (h : step.run.run site = ⟨.error f, trace, state⟩) :
    (step >>= next).run.run site = ⟨.error f, trace, state⟩ := by
  simp only [ExceptT.run_bind, Act.run_bind, h, Act.run_pure, List.append_nil]

/-- What an act on the site gives, a step gives. -/
theorem run_act (a : Act (Site Http.Server) α) (site : Site Http.Server) :
    (act a).run.run site = ⟨.ok (a.run site).value, (a.run site).trace, (a.run site).state⟩ := by
  have hlift : (act a).run = a >>= fun value ↦ pure (.ok value) := rfl
  rw [hlift, Act.run_bind, Act.run_pure, List.append_nil]

private theorem run_actOrFail {ε : Type} (failure : ε → Failure)
    (a : Act (Site Http.Server) (Except ε α)) (site : Site Http.Server) :
    (actOrFail failure a).run.run site =
      ⟨(a.run site).value.mapError failure, (a.run site).trace, (a.run site).state⟩ := by
  rw [actOrFail, run_bind_of_ok (run_act a site)]
  simp only [orFail, ExceptT.run_mk, Act.run_pure, List.append_nil]

/-- Reading the time does nothing else. -/
theorem run_now (s : Surroundings) (site : Site Http.Server) :
    (now s).run.run site = ⟨.ok (s.watch.now site.world.peer), [], site⟩ := by
  rw [now, run_bind_of_ok (run_act Act.get site)]
  rfl

/-- A table is printed among the errors. -/
theorem run_tellTable (table : Table) (site : Site Http.Server) :
    (tellTable table).run.run site =
      ⟨.ok (), [.print .errors ("\n" ++ table.text ++ "\n")], site⟩ :=
  run_act _ site

/-- A judgement does nothing. -/
theorem run_judge (m : Manifest) (site other : Site Http.Server) :
    (judge m).run.run site = ⟨((judge m).run.run other).value, [], site⟩ := by
  unfold judge
  split
  · rfl
  · split <;> rfl

/-! ## Planning -/

/-- A request with the numbers of a range is the request of settings with these numbers; what is
selected has no part in it. -/
theorem planRequest_configure (settings : Settings) (selection : Selection) (range : Range)
    (available : Nat) :
    (range.configure (selection.configure settings)).extract.planRequest available =
      range.override (settings.extract.planRequest available) := rfl

/-- Planning reports what is planned and gives the splits, or fails; it leaves the site as it is. -/
theorem run_planSplits (limits : Plan.Limits) (request : Plan.Request)
    (site : Site Http.Server) :
    (planSplits limits request).run.run site =
      ⟨(Plan.plan limits request).mapError .ofHalt,
        (Plan.planReport limits request).map .log, site⟩ := by
  rw [planSplits, run_bind_of_ok (run_act _ site)]
  simp only [orFail, ExceptT.run_mk, Act.run_pure, List.append_nil]
  rfl

/-! ## Extracting -/

/-- The extraction that a command sets up for a service. -/
def extraction (s : Surroundings) (settings : Settings) (service : Service Http.Server)
    (output : Option String) (workers : Option Nat) : Extraction Http.Server where
  service := service
  outputDir := output.getD settings.outputDir
  workers := settings.workers.resolve workers
  watch := s.watch
  buildPool := s.buildPool

/-- Extract splits, and tell how it went. -/
def extractAndTell (s : Surroundings) (x : Extraction Http.Server) (started : Instant)
    (available : Nat) (splits : List Split) : Step Unit := do
  let manifest ← actOrFail .ofService (x.run available splits)
  tellTable (summary "Fetch" (fetchRows manifest x (started.nanosUntil (← now s))))
  judge manifest

/-- The failure of an extraction that is stopped before it starts. -/
def interrupted : Failure := .plain "Interrupted before extraction started"

/-- What is left to do when splits are planned: extract them unless a stop is seen. -/
def extractSplits (s : Surroundings) (x : Extraction Http.Server) (started : Instant)
    (available : Nat) (splits : List Split) : Step Unit := do
  if ← act (Extraction.look s.watch) then throw interrupted
  extractAndTell s x started available splits

/-- An extraction is planned as it is shown. -/
theorem fetch_eq (s : Surroundings) (settings : Settings) (selection : Selection)
    (output : Option String) (range : Range) (workers : Option Nat) :
    fetch s settings selection output range workers = (do
      let configured := range.configure (selection.configure settings)
      let service ← connect configured
      let started ← now s
      let available ← inWorld service.recordCount
      let splits ← shownSplits settings available range
      extractSplits s (extraction s configured service output workers) started available
        splits) := by
  simp only [fetch, planRequest_configure]
  rfl

/-- A result of a command that extracts splits in a site: the trace of what was done before comes
first, and what comes of the extraction is judged. -/
structure Extracts (x : Extraction Http.Server) (available : Nat) (splits : List Split)
    (before : List Event) (site : Site Http.Server)
    (r : Act.Result (Site Http.Server) (Except Failure Unit)) : Prop where
  state : r.state = ((x.run available splits).run site).state
  trace : ∃ rest, r.trace = before ++ ((x.run available splits).run site).trace ++ rest
  of_error : ∀ e, ((x.run available splits).run site).value = .error e →
    r.value = .error (.ofService e)
  of_ok : ∀ m, ((x.run available splits).run site).value = .ok m →
    r.value = ((judge m).run.run site).value

private theorem Extracts.prepend {x : Extraction Http.Server} {available : Nat}
    {splits : List Split} {before : List Event}
    {r : Act.Result (Site Http.Server) (Except Failure Unit)}
    (h : Extracts x available splits before site r) (earlier : List Event) :
    Extracts x available splits (earlier ++ before) site
      ⟨r.value, earlier ++ r.trace, r.state⟩ := by
  obtain ⟨rest, hrest⟩ := h.trace
  exact ⟨h.state, ⟨rest, by simp only [hrest, List.append_assoc]⟩, h.of_error, h.of_ok⟩

variable {s : Surroundings} {x : Extraction Http.Server} {started : Instant} {available : Nat}
  {splits : List Split}

private theorem extracts_extractAndTell (s : Surroundings) (x : Extraction Http.Server)
    (started : Instant) (available : Nat) (splits : List Split) (site : Site Http.Server) :
    Extracts x available splits [] site
      ((extractAndTell s x started available splits).run.run site) := by
  have hrun := run_actOrFail .ofService (x.run available splits) site
  cases hvalue : ((x.run available splits).run site).value with
  | error e =>
    rw [hvalue] at hrun
    rw [extractAndTell, run_bind_of_error hrun]
    refine ⟨rfl, ⟨[], by simp⟩, ?_, by simp [hvalue]⟩
    intro e' he'
    rw [Except.error.inj (hvalue.symm.trans he')]
  | ok m =>
    rw [hvalue] at hrun
    rw [extractAndTell, run_bind_of_ok hrun, run_bind_of_ok (run_now s _),
      run_bind_of_ok (run_tellTable _ _), run_judge m _ site]
    refine ⟨rfl, ⟨_, rfl⟩, by simp [hvalue], ?_⟩
    intro m' hm'
    rw [Except.ok.inj (hvalue.symm.trans hm')]

/-- A stop that is seen now ends the command. -/
theorem run_extractSplits_of_stopped
    (h : ((Extraction.look s.watch).run site).value = true) :
    (extractSplits s x started available splits).run.run site =
      ⟨.error interrupted, ((Extraction.look s.watch).run site).trace,
        ((Extraction.look s.watch).run site).state⟩ := by
  rw [extractSplits, run_bind_of_ok (run_act _ site), h]
  have hthrow (site : Site Http.Server) :
      (throw interrupted : Step PUnit).run.run site = ⟨.error interrupted, [], site⟩ := rfl
  simp only [if_true]
  rw [run_bind_of_error (hthrow _), List.append_nil]

/-- Where no stop is seen the splits are extracted. -/
theorem extracts_extractSplits (h : ((Extraction.look s.watch).run site).value = false) :
    Extracts x available splits ((Extraction.look s.watch).run site).trace
      ((Extraction.look s.watch).run site).state
      ((extractSplits s x started available splits).run.run site) := by
  rw [extractSplits, run_bind_of_ok (run_act _ site), h]
  have hrest := (extracts_extractAndTell s x started available splits
    ((Extraction.look s.watch).run site).state).prepend ((Extraction.look s.watch).run site).trace
  rwa [List.append_nil] at hrest

/-- What is left of the command when the records are counted. -/
theorem run_fetch_of_counted {settings : Settings} {selection : Selection} {range : Range}
    {service : Service Http.Server} {counted : Site Http.Server} {trace' : List Event}
    (s : Surroundings) (output : Option String) (workers : Option Nat)
    (hconnect : (connect (range.configure (selection.configure settings))).run.run site =
      ⟨.ok service, trace, state⟩)
    (hcount : (inWorld service.recordCount).run.run state = ⟨.ok available, trace', counted⟩) :
    (fetch s settings selection output range workers).run.run site =
      let x := extraction s (range.configure (selection.configure settings)) service output workers
      let started := s.watch.now state.world.peer
      let rest := (shownSplits settings available range >>=
        extractSplits s x started available).run.run counted
      ⟨rest.value, trace ++ trace' ++ rest.trace, rest.state⟩ := by
  rw [fetch_eq, run_bind_of_ok hconnect, run_bind_of_ok (run_now s _), run_bind_of_ok hcount]
  simp only [List.nil_append, List.append_assoc]

/-- Showing splits leaves the site as it is, and comes to the same in every site. -/
theorem run_shownSplits (settings : Settings) (available : Nat) (range : Range)
    (site other : Site Http.Server) :
    let shown := (shownSplits settings available range).run.run other
    (shownSplits settings available range).run.run site = ⟨shown.value, shown.trace, site⟩ := by
  simp only [shownSplits, run_planSplits]

/-- Nothing is reported where showing splits fails, unless it panics. -/
theorem trace_shownSplits_of_error {settings : Settings} {range : Range} {f : Failure}
    (h : ((shownSplits settings available range).run.run site).value = .error f)
    (hnot : ∀ message, f ≠ .panic message) :
    ((shownSplits settings available range).run.run site).trace = [] := by
  simp only [shownSplits, run_planSplits] at h ⊢
  rw [Plan.planReport]
  rw [Plan.plan] at h
  cases hlayout : Plan.layout? settings.planner
      (range.override (settings.extract.planRequest available)) with
  | error e => rfl
  | ok layout =>
    simp only [hlayout] at h
    split at h
    · exact absurd (Except.error.inj h).symm (hnot _)
    · cases h

/-- Where an extraction has set up its service and counted the records, it goes on with the splits
that are shown for that number: it extracts these unless a stop is seen, and it fails at once where
showing them fails, in the same way. Only a failure that is a panic leaves reports of the plan. -/
theorem fetch_extracts_shown (s : Surroundings) (settings : Settings) (selection : Selection)
    (output : Option String) (range : Range) (workers : Option Nat) (available : Nat)
    {site : Site Http.Server} {service : Service Http.Server} (shownIn : Site Http.Server) :
    let configured := range.configure (selection.configure settings)
    let connected := (connect configured).run.run site
    let counted := (inWorld service.recordCount).run.run connected.state
    let before := connected.trace ++ counted.trace
    let looked := (Extraction.look s.watch).run counted.state
    let shown := (shownSplits settings available range).run.run shownIn
    let preview := (showPlan settings available range).run.run shownIn
    let fetched := (fetch s settings selection output range workers).run.run site
    connected.value = .ok service → counted.value = .ok available →
    (∀ splits, shown.value = .ok splits →
      preview = ⟨.ok (),
        shown.trace ++ [.print .errors ("\n" ++ (splitTable splits).text ++ "\n")], shownIn⟩ ∧
      (looked.value = true → fetched =
        ⟨.error interrupted, before ++ shown.trace ++ looked.trace, looked.state⟩) ∧
      (looked.value = false →
        Extracts (extraction s configured service output workers) available splits
          (before ++ shown.trace ++ looked.trace) looked.state fetched)) ∧
    ∀ failure, shown.value = .error failure →
      preview = ⟨.error failure, shown.trace, shownIn⟩ ∧
        fetched = ⟨.error failure, before ++ shown.trace, counted.state⟩ ∧
        ((∀ message, failure ≠ .panic message) → shown.trace = []) := by
  intro configured connected counted before looked shown preview fetched hconnected hcounted
  have hshown (site : Site Http.Server) :
      (shownSplits settings available range).run.run site = ⟨shown.value, shown.trace, site⟩ :=
    run_shownSplits settings available range site shownIn
  have hconnect : (connect configured).run.run site =
      ⟨.ok service, connected.trace, connected.state⟩ := by rw [← hconnected]
  have hcount : (inWorld service.recordCount).run.run connected.state =
      ⟨.ok available, counted.trace, counted.state⟩ := by rw [← hcounted]
  have hfetched := run_fetch_of_counted s output workers hconnect hcount
  constructor
  · intro splits hsplits
    rw [hsplits] at hshown
    simp only [run_bind_of_ok (hshown _), ← List.append_assoc] at hfetched
    refine ⟨run_bind_of_ok (hshown shownIn), fun hstop ↦ ?_, fun hgo ↦ ?_⟩
    · rw [run_extractSplits_of_stopped hstop] at hfetched
      exact hfetched
    · simp only [fetched]
      rw [hfetched]
      exact (extracts_extractSplits hgo).prepend (before ++ shown.trace)
  · intro failure hfailure
    rw [hfailure] at hshown
    refine ⟨run_bind_of_error (hshown shownIn), ?_, trace_shownSplits_of_error hfailure⟩
    simp only [run_bind_of_error (hshown _)] at hfetched
    exact hfetched

/-- Settings with a base URL for the given number of records to fetch. -/
def previewed (fetch : Nat) : Settings :=
  let s := Settings.configured "http://h.example.com/odata"
  { s with extract := { s.extract with fetch } }

/-- Two splits are shown and extracted where a zero on the command line takes the place of the
number of records to fetch. -/
theorem fetch_extracts_shown_twoSplits :
    let s : Surroundings := ⟨[], 8, ⟨fun _ ↦ false, fun _ ↦ ⟨0, 0, 0⟩, id⟩, fun _ ↦ .ok ()⟩
    let selection : Selection := ⟨none, none⟩
    let range : Range := ⟨some 10, some 0, some 2, none⟩
    let configured := range.configure (selection.configure (previewed 7))
    let splits : List Split := [⟨11, 4010, 2500⟩, ⟨4011, 8010, 2500⟩]
    let server : Http.Server := ⟨true, [.answer 200 none (Text.bytesOf "8010")], []⟩
    let site : Site Http.Server := ⟨⟨server, none⟩, ⟨[], ["home"]⟩⟩
    ((shownSplits (previewed 7) 8010 range).run.run site).value = .ok splits ∧
      ∃ service before looked,
        Extracts (extraction s configured service none none) 8010 splits before looked
          ((fetch s (previewed 7) selection none range none).run.run site) := by
  intro s selection range configured splits server site
  let service : Service Http.Server :=
    ⟨⟨Settings.plainBase, configured.extract.query⟩, configured.connection.peer none,
      .basic "u" "p", configured.retry.policy⟩
  have hvalid : validate configured.failures = pure () := if_pos (by decide +kernel)
  have hmake : Endpoints.make configured.connection.baseUrl configured.extract.query =
      .ok ⟨Settings.plainBase, configured.extract.query⟩ :=
    (Settings.make_eq_ok_iff_of_isWeb rfl).mpr (by decide +kernel)
  have hconnected : ((connect configured).run.run site).value = .ok service := by
    have hopened : ((openService configured).run.run site).value = _ :=
      Settings.run_openService site rfl rfl
    rw [hmake] at hopened
    rw [connect, hvalid]
    exact hopened
  have hcounted : ((inWorld service.recordCount).run.run
      ((connect configured).run.run site).state).value = .ok 8010 := by decide +kernel
  have hshown : ((shownSplits (previewed 7) 8010 range).run.run site).value = .ok splits := by
    decide +kernel
  exact ⟨hshown, service, _, _, ((fetch_extracts_shown s (previewed 7) selection none range none
    8010 site hconnected hcounted).1 splits hshown).2.2 rfl⟩

end Harvest.Command
