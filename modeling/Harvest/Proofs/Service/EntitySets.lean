import Harvest.Proofs.Json.Records
import Harvest.Proofs.Service.Verdicts

/-!
# What a service document lists

A service document lists names of entity sets under `d` or at its top. Those under `d` come first;
where there are none, whatever `d` is, those at the top count. No other entry of a document makes a
difference, wherever it stands.
Design: `SPEC_FULL.md:254–257`.
-/

namespace Harvest

open Http (Response)
open Json (Value)

/-! ## Entries of objects -/

namespace Json

variable {name : String} {v : Value} {es es' : List (String × Value)}

private theorem Value.all_object_of_not_mem (h : name ∉ es.map (·.1)) :
    (Value.object es).all name = [] := by
  induction es with
  | nil => rfl
  | cons e es ih =>
    rw [List.map_cons, List.mem_cons, not_or] at h
    rw [Value.all_object_cons, if_neg (Ne.symm h.1), ih h.2]

/-- Where no name is repeated, an object holds just the one value that stands under a name. -/
theorem Value.only?_eq_some_iff (h : (es.map (·.1)).Nodup) :
    (Value.object es).only? name = some v ↔ (name, v) ∈ es := by
  induction es with
  | nil => simp [Value.only?, Value.all]
  | cons e es ih =>
    rw [List.map_cons, List.nodup_cons] at h
    rw [Value.only?, Value.all_object_cons, List.mem_cons]
    by_cases hname : e.1 = name
    · have hnone : (name, v) ∉ es := by
        intro hmem
        apply h.1
        rw [hname]
        exact List.mem_map_of_mem hmem
      rw [if_pos hname, Value.all_object_of_not_mem (hname ▸ h.1)]
      simp only [Option.some.injEq, hnone, or_false]
      constructor
      · rintro rfl
        rw [← hname]
      · intro heq
        rw [← heq]
    · have hne : (name, v) ≠ e := by
        rintro rfl
        exact hname rfl
      rw [if_neg hname, ← Value.only?, ih h.2]
      simp only [hne, false_or]

private theorem Value.only?_eq_some_iff_all {w : Value} :
    v.only? name = some w ↔ v.all name = [w] := by
  unfold only?
  split
  · next hall => rw [hall, Option.some.injEq, List.cons_eq_cons, and_iff_left rfl]
  · next hall =>
    simp only [reduceCtorEq, false_iff]
    exact hall w

/-- What is the only value under a name does not depend on the order of the entries. -/
theorem Value.only?_congr {v w : Value} (h : (v.all name).Perm (w.all name)) :
    v.only? name = w.only? name := by
  apply Option.ext
  intro value
  rw [only?_eq_some_iff_all, only?_eq_some_iff_all]
  constructor
  · intro hall
    rw [hall, List.singleton_perm] at h
    exact h.symm
  · intro hall
    rw [hall, List.perm_singleton] at h
    exact h

end Json

/-! ## Names of entity sets -/

namespace Service

variable {σ : Type} {s : Service σ} {world : World σ} {names : List String}
  {es es' : List (String × Value)} {v : Value}

/-- A list of names. -/
def listOfNames (names : List String) : Value := .array (names.map .string)

/-- No name is repeated in a document, neither at its top nor in an object under `d`. -/
structure IsUnambiguous (es : List (String × Value)) : Prop where
  top : (es.map (·.1)).Nodup
  under : ∀ ds, ("d", .object ds) ∈ es → (ds.map (·.1)).Nodup

/-- A document lists names under `d`: as the entity sets of an object, or in a list of that list. -/
inductive ListsUnder (es : List (String × Value)) (names : List String) : Prop
  | object (ds : List (String × Value)) (h : ("d", .object ds) ∈ es)
      (hsets : ("EntitySets", listOfNames names) ∈ ds)
  | list (h : ("d", .array [listOfNames names]) ∈ es)

/-- What a document lists: names under `d`, or else names at its top. -/
inductive Lists (es : List (String × Value)) (names : List String) : Prop
  | under (h : ListsUnder es names)
  | top (hunder : ∀ others, ¬ListsUnder es others)
      (h : ("EntitySets", listOfNames names) ∈ es)

/-- What matters of the value under `d`: of an object, its entity sets. -/
def essentialUnder : Value → Value
  | .object ds => .object (ds.filter (·.1 == "EntitySets"))
  | v => v

/-- The entries of a document that matter, without the others that stand between them. -/
def essential : List (String × Value) → List (String × Value)
  | [] => []
  | (name, v) :: es =>
    if name = "d" then (name, essentialUnder v) :: essential es
    else if name = "EntitySets" then (name, v) :: essential es
    else essential es

/-! ### Reading -/

private theorem mapM_string?_eq_some_iff {vs : List Value} :
    vs.mapM Value.string? = some names ↔ vs = names.map .string := by
  induction vs generalizing names with
  | nil => cases names <;> simp
  | cons v vs ih =>
    simp only [List.mapM_cons, Option.bind_eq_bind, Option.bind_eq_some_iff, Option.pure_def,
      Option.some.injEq, Value.string?_eq_some_iff, ih]
    constructor
    · rintro ⟨text, rfl, texts, rfl, rfl⟩
      rfl
    · intro h
      cases names with
      | nil => cases h
      | cons text texts =>
        rw [List.map_cons, List.cons.injEq] at h
        exact ⟨text, h.1, texts, h.2, rfl⟩

private theorem texts_eq_some_iff : texts v = some names ↔ v = listOfNames names := by
  rw [listOfNames]
  cases v with
  | array vs => rw [Value.array.injEq, ← mapM_string?_eq_some_iff, texts]
  | null | bool | number | string | object => simp [texts]

/-- The names of an object are listed by its one entry for entity sets. -/
theorem entitySets_object (ds : List (String × Value)) :
    entitySets (.object ds) = ((Value.object ds).only? "EntitySets").bind texts := rfl

private theorem only?_bind_texts_eq_some_iff (h : (es.map (·.1)).Nodup) :
    ((Value.object es).only? "EntitySets").bind texts = some names ↔
      ("EntitySets", listOfNames names) ∈ es := by
  simp only [Option.bind_eq_some_iff, Value.only?_eq_some_iff h, texts_eq_some_iff]
  constructor
  · rintro ⟨v, hv, rfl⟩
    exact hv
  · intro hv
    exact ⟨_, hv, rfl⟩

private theorem under_eq_some_iff (h : IsUnambiguous es) :
    ((Value.object es).only? "d").bind entitySets = some names ↔ ListsUnder es names := by
  simp only [Option.bind_eq_some_iff, Value.only?_eq_some_iff h.top]
  constructor
  · rintro ⟨v, hv, hnames⟩
    rw [entitySets.eq_def] at hnames
    split at hnames
    · rw [texts_eq_some_iff] at hnames
      exact .list (hnames ▸ hv)
    · next ds =>
      exact .object ds hv ((only?_bind_texts_eq_some_iff (h.under ds hv)).mp hnames)
    · cases hnames
  · intro hunder
    cases hunder with
    | object ds hv hsets =>
      exact ⟨_, hv, (only?_bind_texts_eq_some_iff (h.under ds hv)).mpr hsets⟩
    | list hv => exact ⟨_, hv, texts_eq_some_iff.mpr rfl⟩

/-- The names under `d` come before those at the top. -/
theorem entityNames_eq_some_iff (h : IsUnambiguous es) :
    entityNames (.object es) = some names ↔ Lists es names := by
  rw [entityNames, entitySets_object]
  cases hunder : ((Value.object es).only? "d").bind entitySets with
  | some others =>
    rw [under_eq_some_iff h] at hunder
    rw [Option.orElse_some, Option.some.injEq]
    constructor
    · rintro rfl
      exact .under hunder
    · intro hlists
      cases hlists with
      | under hnames =>
        rw [← under_eq_some_iff h] at hunder hnames
        exact Option.some.inj (hunder.symm.trans hnames)
      | top hnone => exact absurd hunder (hnone others)
  | none =>
    have hnone : ∀ others, ¬ListsUnder es others := by
      intro others hothers
      rw [← under_eq_some_iff h, hunder] at hothers
      cases hothers
    rw [Option.orElse_none, only?_bind_texts_eq_some_iff h.top]
    constructor
    · intro hnames
      exact .top hnone hnames
    · intro hlists
      cases hlists with
      | under hnames => exact absurd hnames (hnone names)
      | top _ hnames => exact hnames

/-! ### Other entries -/

private theorem all_essential_d (es : List (String × Value)) :
    (Value.object (essential es)).all "d" = ((Value.object es).all "d").map essentialUnder := by
  induction es with
  | nil => rfl
  | cons e es ih =>
    rw [essential.eq_def]
    by_cases hd : e.1 = "d"
    · simp only [Value.all_object_cons, hd, if_true, ih, List.map_cons]
    by_cases hsets : e.1 = "EntitySets"
    · simp [Value.all_object_cons, hsets, ih]
    · simp only [Value.all_object_cons, hd, hsets, if_false, ih]

private theorem all_essential_sets (es : List (String × Value)) :
    (Value.object (essential es)).all "EntitySets" = (Value.object es).all "EntitySets" := by
  induction es with
  | nil => rfl
  | cons e es ih =>
    rw [essential.eq_def]
    by_cases hd : e.1 = "d"
    · simp [Value.all_object_cons, hd, ih]
    by_cases hsets : e.1 = "EntitySets"
    · simp [Value.all_object_cons, hsets, ih]
    · simp only [Value.all_object_cons, hd, hsets, if_false, ih]

/-- Under `d` only the entry for entity sets matters. -/
theorem entitySets_essentialUnder (v : Value) : entitySets (essentialUnder v) = entitySets v := by
  cases v with
  | object ds =>
    have hall : (Value.object (ds.filter (·.1 == "EntitySets"))).all "EntitySets" =
        (Value.object ds).all "EntitySets" := by
      simp [Value.all, List.filter_filter]
    have honly := Value.only?_congr (List.Perm.of_eq hall)
    rw [essentialUnder, entitySets_object, entitySets_object, honly]
  | null | bool | number | string | array => rfl

private theorem only?_essential_d (es : List (String × Value)) :
    (Value.object (essential es)).only? "d" =
      ((Value.object es).only? "d").map essentialUnder := by
  unfold Value.only?
  rw [all_essential_d]
  cases (Value.object es).all "d" with
  | nil => rfl
  | cons v vs => cases vs <;> rfl

/-- The entries that matter list what the document lists. -/
theorem entityNames_essential (es : List (String × Value)) :
    entityNames (.object (essential es)) = entityNames (.object es) := by
  have hsets := Value.only?_congr (List.Perm.of_eq (all_essential_sets es))
  have hunder : ((Value.object (essential es)).only? "d").bind entitySets =
      ((Value.object es).only? "d").bind entitySets := by
    rw [only?_essential_d]
    cases (Value.object es).only? "d" with
    | none => rfl
    | some v => exact entitySets_essentialUnder v
  rw [entityNames, entityNames, entitySets_object, entitySets_object, hsets, hunder]

/-- Documents list the same names where what matters in them is the same, in any order. -/
theorem entityNames_congr (h : (essential es).Perm (essential es')) :
    entityNames (.object es) = entityNames (.object es') := by
  have honly : ∀ name, (Value.object (essential es)).only? name =
      (Value.object (essential es')).only? name := by
    intro name
    exact Value.only?_congr ((h.filter _).map _)
  rw [← entityNames_essential es, ← entityNames_essential es', entityNames, entityNames,
    entitySets_object, entitySets_object, honly, honly]

/-! ### Bodies -/

/-- What is wrong with a document that lists nothing. -/
def noList : String := "data did not match any variant of untagged enum ServiceDocument"

private theorem parseEntityList_of_parse {body : Text.Bytes} (h : Json.parse body = .ok v) :
    parseEntityList body = (entityNames v).elim (.error noList) .ok := by
  obtain ⟨rest, hv, hend⟩ := Json.readAll_eq_ok_iff.mp h
  cases hnames : entityNames v with
  | some names =>
    have hread : readDocument body = (.ok names, rest) := by
      rw [readDocument, Json.Reader.bind_of_ok hv, hnames]
      rfl
    have hall : Json.readAll readDocument body = .ok names :=
      Json.readAll_eq_ok_iff.mpr ⟨rest, hread, hend⟩
    rw [parseEntityList, hall]
    rfl
  | none =>
    have hread : readDocument body = (.error ⟨.noVariant "ServiceDocument", none⟩, rest) := by
      rw [readDocument, Json.Reader.bind_of_ok hv, hnames]
      rfl
    have hall : Json.readAll readDocument body =
        .error ⟨.noVariant "ServiceDocument", none⟩ := by
      simp only [Json.readAll, bind, hread]
    rw [parseEntityList, hall]
    rfl

/-- Names are what their request comes to, read as a document. -/
theorem value_listEntities (s : Service σ) (world : World σ) :
    (s.listEntities.run world).value =
      (verdict "entity sets" (s.called s.endpoints.base Http.json world).value).bind
        fun response ↦ (parseEntityList response.body).mapError .invalidEntityList := by
  simp only [listEntities, Act.run_bind, run_fetch]
  cases verdict "entity sets" (s.called s.endpoints.base Http.json world).value with
  | error e => rfl
  | ok response =>
    simp only [Except.bind]
    cases parseEntityList response.body with
    | error detail => rfl
    | ok names => simp only [Act.run_bind, Act.run_report, Act.run_pure, Except.mapError]

/-- A granted answer with an object for a body lists the names in that, or is refused. -/
theorem value_listEntities_of_parse {response : Response}
    (hresponse : (s.called s.endpoints.base Http.json world).value = .ok response)
    (hgranted : response.isSuccess = true) (hbody : Json.parse response.body = .ok (.object es)) :
    (s.listEntities.run world).value =
      (entityNames (.object es)).elim (.error (.invalidEntityList noList)) .ok := by
  have hverdict : verdict "entity sets" (s.called s.endpoints.base Http.json world).value =
      .ok response := verdict_eq_ok_iff.mpr ⟨hresponse, hgranted⟩
  rw [value_listEntities, hverdict, Except.bind, parseEntityList_of_parse hbody]
  cases entityNames (.object es) <;> rfl

/-- Where no name is repeated in the object that a granted answer has for a body, the names under
`d` are listed, or else those at its top; with neither the answer is refused. Answers that differ in
other entries only, or in the order of entries, come to the same. -/
theorem listEntities_lists (s : Service σ) (world : World σ) (response : Response)
    (es : List (String × Value))
    (hresponse : (s.called s.endpoints.base Http.json world).value = .ok response)
    (hgranted : response.isSuccess = true) (hbody : Json.parse response.body = .ok (.object es))
    (hes : IsUnambiguous es) :
    let listed := (s.listEntities.run world).value
    (∀ names, listed = .ok names ↔ Lists es names) ∧
    ((∀ names, ¬Lists es names) → listed = .error (.invalidEntityList noList)) ∧
    ∀ other response' es', (s.called s.endpoints.base Http.json other).value = .ok response' →
      response'.isSuccess = true → Json.parse response'.body = .ok (.object es') →
        (essential es).Perm (essential es') → (s.listEntities.run other).value = listed := by
  intro listed
  have hlisted : listed = (entityNames (.object es)).elim
      (.error (.invalidEntityList noList)) .ok :=
    value_listEntities_of_parse hresponse hgranted hbody
  refine ⟨?_, ?_, ?_⟩
  · intro names
    rw [hlisted, ← entityNames_eq_some_iff hes]
    cases entityNames (.object es) <;> simp
  · intro hnone
    cases hnames : entityNames (.object es) with
    | none => rw [hlisted, hnames, Option.elim_none]
    | some names => exact absurd ((entityNames_eq_some_iff hes).mp hnames) (hnone names)
  · intro other response' es' hresponse' hgranted' hbody' hperm
    rw [value_listEntities_of_parse hresponse' hgranted' hbody', hlisted, entityNames_congr hperm]

/-- An answer that is granted with the given body. -/
def granted (body : String) : Response := ⟨200, "OK", none, Text.bytesOf body⟩

/-- Names under `d` hide those at the top; other entries and another order do not change that. -/
theorem listEntities_lists_under :
    let body := "\x7b\"d\":\x7b\"EntitySets\":[\"B\",\"B\"]\x7d,\"EntitySets\":[\"C\"]\x7d"
    let body' := "\x7b\"EntitySets\":[\"C\"],\"n\":1,\"d\":\x7b\"n\":[],\"EntitySets\":[\"B\",\"B\"]\x7d\x7d"
    (asked.listEntities.run (answering (granted body))).value = .ok ["B", "B"] ∧
      (asked.listEntities.run (answering (granted body'))).value = .ok ["B", "B"] := by
  intro body body'
  let under := ("EntitySets", listOfNames ["B", "B"])
  let top := ("EntitySets", listOfNames ["C"])
  let es := [("d", Value.object [under]), top]
  let es' := [top, ("n", .number (.nat 1)), ("d", .object [("n", .array []), under])]
  have hbody : Json.parse (granted body).body = .ok (.object es) := by decide +kernel
  have hbody' : Json.parse (granted body').body = .ok (.object es') := by decide +kernel
  have hes : IsUnambiguous es := by
    constructor
    · decide
    · intro ds hds
      simp [es, under, top, listOfNames] at hds
      simp [hds]
  have hperm : (essential es).Perm (essential es') := by
    simpa [es, es', essential, essentialUnder, under, top] using List.Perm.swap _ _ _
  obtain ⟨hlists, -, hother⟩ :=
    listEntities_lists asked (answering (granted body)) (granted body) es
      (value_called_asked rfl _ _) rfl hbody hes
  have hlisted := (hlists ["B", "B"]).mpr
    (.under (.object [under] List.mem_cons_self List.mem_cons_self))
  exact ⟨hlisted,
    (hother _ _ es' (value_called_asked rfl _ _) rfl hbody' hperm).trans hlisted⟩

end Service

end Harvest
