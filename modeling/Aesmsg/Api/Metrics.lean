import Aesmsg.Lib.Exposition
import Aesmsg.Lib.NumberText
import Aesmsg.Lib.OrderedMap
import Mathlib.Data.List.Sort

/-!
# The registry of the metrics

`metrics/registry.ts` of `apps/api`.  A metric has a bucket of series, one for each text of labels, and the
registry renders them in the text format of metrics.

## Main results

- `Agrees.write`, `Agrees.clear`, `Agrees.foldl`: what an update of the registry does to its series.
- `faithful_render`: the series are read back from the text of a registry, each once.
-/

namespace Aesmsg.Api.Metrics

/-! ## The registry -/

inductive MetricType where
  | counter
  | gauge
deriving DecidableEq

def MetricType.text : MetricType → String
  | .counter => "counter"
  | .gauge => "gauge"

structure MetricDef where
  type : MetricType
  help : String
  labelNames : List String

inductive MetricName where
  | aesmsg_http_requests_total
  | aesmsg_rate_limited_total
  | aesmsg_messages_created_total
  | aesmsg_messages_opened_total
  | aesmsg_messages_revoked_total
  | aesmsg_dependency_errors_total
  | aesmsg_store_memory_fallback
  | aesmsg_active_links
  | aesmsg_ciphertext_bytes
deriving DecidableEq

def MetricName.text : MetricName → String
  | .aesmsg_http_requests_total => "aesmsg_http_requests_total"
  | .aesmsg_rate_limited_total => "aesmsg_rate_limited_total"
  | .aesmsg_messages_created_total => "aesmsg_messages_created_total"
  | .aesmsg_messages_opened_total => "aesmsg_messages_opened_total"
  | .aesmsg_messages_revoked_total => "aesmsg_messages_revoked_total"
  | .aesmsg_dependency_errors_total => "aesmsg_dependency_errors_total"
  | .aesmsg_store_memory_fallback => "aesmsg_store_memory_fallback"
  | .aesmsg_active_links => "aesmsg_active_links"
  | .aesmsg_ciphertext_bytes => "aesmsg_ciphertext_bytes"

/-- `Object.keys(METRIC_DEFS)` -/
def MetricName.all : List MetricName :=
  [.aesmsg_http_requests_total, .aesmsg_rate_limited_total, .aesmsg_messages_created_total,
    .aesmsg_messages_opened_total, .aesmsg_messages_revoked_total, .aesmsg_dependency_errors_total,
    .aesmsg_store_memory_fallback, .aesmsg_active_links, .aesmsg_ciphertext_bytes]

def METRIC_DEFS : MetricName → MetricDef
  | .aesmsg_http_requests_total => ⟨.counter, "Total HTTP requests handled, by route TEMPLATE (never " ++
      "the raw URL, so no link id leaks) and status class.", ["route", "status_class"]⟩
  | .aesmsg_rate_limited_total =>
    ⟨.counter, "Requests rejected with 429 by the per-IP rate limiter, by route template.", ["route"]⟩
  | .aesmsg_messages_created_total =>
    ⟨.counter, "Secure links created (POST /api/messages -> 201).", []⟩
  | .aesmsg_messages_opened_total =>
    ⟨.counter, "Secure link opens served (POST /api/messages/:id/open -> 200).", []⟩
  | .aesmsg_messages_revoked_total => ⟨.counter, "Revoke requests accepted (POST " ++
      "/api/messages/:id/revoke -> 200). Revoke is opaque, so this counts accepted requests, not " ++
      "confirmed deletions.", []⟩
  | .aesmsg_dependency_errors_total => ⟨.counter, "Server-side 5xx responses, which in this API always " ++
      "mean a store/dependency (Postgres/Redis) failure. Feeds the dependency-outage alert.", ["route"]⟩
  | .aesmsg_store_memory_fallback => ⟨.gauge, "1 when the API is running on in-memory stores (R1: " ++
      "silent data-loss on restart), 0 on Postgres+Redis. Alert if this is 1 in production.", []⟩
  | .aesmsg_active_links => ⟨.gauge,
      "Aggregate COUNT of links still active. Volume only — no id, recipient, or ciphertext.", []⟩
  | .aesmsg_ciphertext_bytes => ⟨.gauge,
      "Aggregate SUM of stored ciphertext bytes. Volume only — never ciphertext content.", []⟩

/-- The entries of an object. -/
abbrev Labels := List (String × String)

structure Series where
  labels : Labels
  value : ℕ

/-- `value.replace(c, text)`, at every place. -/
def replaceAll (c : Char) (text value : List Char) : List Char :=
  value.flatMap fun d ↦ if d = c then text else [d]

def escapeLabelValue (value : String) : List Char :=
  replaceAll '\n' ['\\', 'n'] (replaceAll '"' ['\\', '"'] (replaceAll '\\' ['\\', '\\'] value.toList))

def serializeLabels (labels : Labels) : List Char :=
  let keys := (labels.map Prod.fst).insertionSort (· ≤ ·)
  if keys.length = 0 then []
  else
    let inner := keys.map fun k ↦
      k.toList ++ '=' :: '"' :: (escapeLabelValue ((labels.lookup k).getD "") ++ ['"'])
    '{' :: (Exposition.commas inner ++ ['}'])

/-- The buckets of the metrics. -/
abbrev Registry := MetricName → OrderedMap (List Char) Series

/-- A text in quotes. -/
def quoted (s : String) : String := String.ofList ('"' :: (s.toList ++ ['"']))

def validateLabels (name : MetricName) (labels : Labels) : Except String Unit :=
  match labels.find? fun label ↦ label.1 ∉ (METRIC_DEFS name).labelNames with
  | some label => .error ("MetricsRegistry: metric " ++ name.text ++ " does not accept label " ++
      quoted label.1)
  | none => .ok ()

/-- The series of some labels counts on. -/
def bump (registry : Registry) (name : MetricName) (labels : Labels) (amount : ℕ) : Registry :=
  let key := serializeLabels labels
  let series : Series := match (registry name).get? key with
    | some existing => { existing with value := existing.value + amount }
    | none => ⟨labels, amount⟩
  Function.update registry name ((registry name).set key series)

def increment (registry : Registry) (name : MetricName) (labels : Labels) (amount : ℕ) :
    Except String Registry := do
  if (METRIC_DEFS name).type ≠ .counter then
    throw ("MetricsRegistry: " ++ name.text ++ " is not a counter")
  validateLabels name labels
  return bump registry name labels amount

def set (registry : Registry) (name : MetricName) (value : ℕ) (labels : Labels) :
    Except String Registry := do
  if (METRIC_DEFS name).type ≠ .gauge then
    throw ("MetricsRegistry: " ++ name.text ++ " is not a gauge")
  validateLabels name labels
  return Function.update registry name ((registry name).set (serializeLabels labels) ⟨labels, value⟩)

def clearMetric (registry : Registry) (name : MetricName) : Registry :=
  Function.update registry name .empty

def setUnlabelledZero (registry : Registry) (name : MetricName) : Registry :=
  Function.update registry name ((registry name).set [] ⟨[], 0⟩)

def reset : Except String Registry :=
  let registry : Registry := fun _ ↦ .empty
  let registry := setUnlabelledZero registry .aesmsg_messages_created_total
  let registry := setUnlabelledZero registry .aesmsg_messages_opened_total
  let registry := setUnlabelledZero registry .aesmsg_messages_revoked_total
  set registry .aesmsg_store_memory_fallback 0 []

/-- `Array.from(bucket.entries())` -/
def entries (bucket : OrderedMap (List Char) Series) : List (List Char × Series) :=
  bucket.keys.filterMap fun key ↦ (bucket.get? key).map (key, ·)

/-- The series of a metric as they are sorted: `localeCompare(a, b)` says whether `a` stands before `b` or
beside it. -/
def sorted (localeCompare : List Char → List Char → Bool) (registry : Registry) (name : MetricName) :
    List (List Char × Series) :=
  (entries (registry name)).mergeSort fun a b ↦ localeCompare a.1 b.1

def metricLines (localeCompare : List Char → List Char → Bool) (registry : Registry) (name : MetricName) :
    List (List Char) :=
  if (registry name).keys = [] then []
  else
    ("# HELP " ++ name.text ++ " " ++ (METRIC_DEFS name).help).toList ::
      ("# TYPE " ++ name.text ++ " " ++ (METRIC_DEFS name).type.text).toList ::
        (sorted localeCompare registry name).map fun (labelStr, s) ↦
          name.text.toList ++ labelStr ++ ' ' :: Nat.toDigits 10 s.value

def lines (localeCompare : List Char → List Char → Bool) (registry : Registry) : List (List Char) :=
  MetricName.all.flatMap (metricLines localeCompare registry)

def render (localeCompare : List Char → List Char → Bool) (registry : Registry) : List Char :=
  ['\n'].intercalate (lines localeCompare registry) ++ ['\n']

/-! ## Labels -/

section Labels

variable {name name' : MetricName} {labels labels' : Labels}

theorem labelNames_sorted (name : MetricName) :
    (METRIC_DEFS name).labelNames.Pairwise (· ≤ ·) ∧ (METRIC_DEFS name).labelNames.Nodup := by
  cases name <;> decide

/-- The labels of a series, in the order of the definition. -/
def Fits (name : MetricName) (labels : Labels) : Prop :=
  labels.map Prod.fst = (METRIC_DEFS name).labelNames

theorem escapeLabelValue_eq (value : String) : escapeLabelValue value = Exposition.escape value.toList := by
  unfold escapeLabelValue replaceAll Exposition.escape
  rw [List.flatMap_assoc, List.flatMap_assoc]
  apply List.flatMap_congr
  intro c _
  unfold Exposition.escapeChar
  by_cases hslash : c = '\\'
  · subst hslash
    rfl
  · by_cases hquote : c = '"'
    · subst hquote
      rfl
    · simp [hslash, hquote]

theorem lookup_of_mem {label : String × String} (hnodup : (labels.map Prod.fst).Nodup)
    (h : label ∈ labels) : labels.lookup label.1 = some label.2 := by
  induction labels with
  | nil => cases h
  | cons first rest ih =>
    rw [List.map_cons, List.nodup_cons] at hnodup
    rcases List.mem_cons.mp h with rfl | h
    · exact List.lookup_cons_self
    · have hne : label.1 ≠ first.1 := fun heq ↦ hnodup.1 (heq ▸ List.mem_map_of_mem h)
      rw [List.lookup_cons, beq_false_of_ne hne]
      exact ih hnodup.2 h

theorem Fits.serializeLabels_eq (h : Fits name labels) :
    serializeLabels labels = Exposition.labels labels := by
  obtain ⟨hsorted, hnodup⟩ := labelNames_sorted name
  rw [← h] at hsorted hnodup
  have hinner : (labels.map Prod.fst).map (fun k ↦ k.toList ++ '=' :: '"' ::
      (escapeLabelValue ((labels.lookup k).getD "") ++ ['"'])) = labels.map Exposition.pair := by
    rw [List.map_map]
    apply List.map_congr_left
    intro label hlabel
    unfold Exposition.pair
    rw [Function.comp_apply, lookup_of_mem hnodup hlabel, Option.getD_some, escapeLabelValue_eq]
  unfold serializeLabels
  rw [List.Pairwise.insertionSort_eq hsorted]
  dsimp only
  rw [hinner]
  cases labels with
  | nil => rfl
  | cons label rest => rfl

theorem Fits.inj (h : Fits name labels) (h' : Fits name labels')
    (heq : serializeLabels labels = serializeLabels labels') : labels = labels' := by
  rw [h.serializeLabels_eq, h'.serializeLabels_eq] at heq
  exact Exposition.labels_inj (h.trans h'.symm) heq

theorem Fits.validateLabels_eq (h : Fits name labels) : validateLabels name labels = .ok () := by
  have hfind : labels.find? (fun label ↦ label.1 ∉ (METRIC_DEFS name).labelNames) = none := by
    apply List.find?_eq_none.mpr
    intro label hlabel
    rw [← show labels.map Prod.fst = _ from h]
    simpa using List.mem_map_of_mem (f := Prod.fst) hlabel
  unfold validateLabels
  rw [hfind]

/-- A character that is not in a literal. -/
theorem not_mem_ofList {c : Char} {l : List Char} (h : c ∉ l) : c ∉ (String.ofList l).toList := by
  rwa [String.toList_ofList]

theorem not_mem_append {c : Char} {a b : String} (ha : c ∉ a.toList) (hb : c ∉ b.toList) :
    c ∉ (a ++ b).toList := by
  rw [String.toList_append, List.mem_append]
  exact not_or.mpr ⟨ha, hb⟩

/-- The labels are empty or start with a brace, and take one line. -/
theorem Fits.text (h : Fits name labels) :
    (Exposition.labels labels = [] ∨ ∃ rest, Exposition.labels labels = '{' :: rest) ∧
      '\n' ∉ Exposition.labels labels := by
  constructor
  · cases labels with
    | nil => exact .inl rfl
    | cons label rest => exact .inr ⟨_, rfl⟩
  · apply Exposition.newline_not_mem_labels
    intro label hlabel
    have hmem : label.1 ∈ (METRIC_DEFS name).labelNames := by
      rw [← show labels.map Prod.fst = _ from h]
      exact List.mem_map_of_mem hlabel
    have hnames : ∀ name, ∀ text ∈ (METRIC_DEFS name).labelNames, '\n' ∉ text.toList := by
      intro name
      cases name <;> decide
    exact hnames name label.1 hmem

/-- The text of a series. -/
def seriesText (name : MetricName) (labels : Labels) : List Char :=
  name.text.toList ++ Exposition.labels labels

theorem text_injective : Function.Injective MetricName.text := by
  intro a b
  cases a <;> cases b <;> decide

theorem head_text (name : MetricName) : ∃ rest, name.text.toList = 'a' :: rest := by
  cases name <;> exact ⟨_, String.toList_ofList⟩

theorem brace_not_mem_text (name : MetricName) : '{' ∉ name.text.toList := by
  cases name <;> exact not_mem_ofList (by decide)

theorem newline_not_mem_text (name : MetricName) : '\n' ∉ name.text.toList := by
  cases name <;> exact not_mem_ofList (by decide)

theorem seriesText_inj (h : Fits name labels) (h' : Fits name' labels')
    (heq : seriesText name labels = seriesText name' labels') : name = name' ∧ labels = labels' := by
  have htake : ∀ {name : MetricName} {labels : Labels}, Fits name labels →
      (seriesText name labels).takeWhile (· ≠ '{') = name.text.toList := by
    intro name labels h
    have hall : ∀ c ∈ name.text.toList, decide (c ≠ '{') = true := by
      intro c hc
      refine decide_eq_true ?_
      rintro rfl
      exact brace_not_mem_text name hc
    unfold seriesText
    rw [List.takeWhile_append_of_pos hall]
    rcases h.text.1 with hnil | ⟨rest, hbrace⟩
    · rw [hnil]
      exact List.append_nil _
    · rw [hbrace, List.takeWhile_cons_of_neg (by simp), List.append_nil]
  have hname : name = name' := by
    apply text_injective
    apply String.toList_injective
    rw [← htake h, ← htake h', heq]
  subst hname
  exact ⟨rfl, Exposition.labels_inj (h.trans h'.symm) (List.append_cancel_left heq)⟩

end Labels

/-! ## Values -/

/-- The value of a series of the registry. -/
def value (registry : Registry) (name : MetricName) (key : List Char) : Option ℕ :=
  ((registry name).get? key).map Series.value

section Values

variable {r : Registry} {name : MetricName} {labels : Labels}

theorem value_set (r : Registry) (name : MetricName) (key : List Char) (series : Series)
    (name' : MetricName) (key' : List Char) :
    value (Function.update r name ((r name).set key series)) name' key' =
      if name' = name ∧ key' = key then some series.value else value r name' key' := by
  unfold value
  by_cases hname : name' = name
  · subst hname
    rw [Function.update_self, OrderedMap.get?_set]
    by_cases hkey : key' = key
    · rw [if_pos hkey, if_pos ⟨rfl, hkey⟩]
      rfl
    · rw [if_neg hkey, if_neg fun h ↦ hkey h.2]
  · rw [Function.update_of_ne hname, if_neg fun h ↦ hname h.1]

theorem value_bump (r : Registry) (name : MetricName) (labels : Labels) (amount : ℕ)
    (name' : MetricName) (key' : List Char) :
    value (bump r name labels amount) name' key' =
      if name' = name ∧ key' = serializeLabels labels then
        some ((value r name (serializeLabels labels)).getD 0 + amount)
      else value r name' key' := by
  unfold bump
  rw [value_set]
  congr 2
  unfold value
  cases (r name).get? (serializeLabels labels) with
  | none => exact (Nat.zero_add amount).symm
  | some existing => rfl

theorem value_clearMetric (r : Registry) (name name' : MetricName) (key : List Char) :
    value (clearMetric r name) name' key = if name' = name then none else value r name' key := by
  unfold value clearMetric
  by_cases hname : name' = name
  · subst hname
    rw [Function.update_self, if_pos rfl]
    rfl
  · rw [Function.update_of_ne hname, if_neg hname]

theorem increment_eq (htype : (METRIC_DEFS name).type = .counter) (h : Fits name labels) (amount : ℕ) :
    increment r name labels amount = .ok (bump r name labels amount) := by
  unfold increment
  rw [htype, h.validateLabels_eq]
  rfl

theorem set_eq (htype : (METRIC_DEFS name).type = .gauge) (h : Fits name labels) (n : ℕ) :
    set r name n labels =
      .ok (Function.update r name ((r name).set (serializeLabels labels) ⟨labels, n⟩)) := by
  unfold set
  rw [htype, h.validateLabels_eq]
  rfl

end Values

/-! ## What is recorded -/

/-- The registry has the values of all series, and no others. -/
structure Agrees (r : Registry) (f : MetricName → Labels → Option ℕ) : Prop where
  value : ∀ {name labels}, Fits name labels → value r name (serializeLabels labels) = f name labels
  known : ∀ {name key n}, Metrics.value r name key = some n →
    ∃ labels, Fits name labels ∧ serializeLabels labels = key

section Agrees

variable {r r' : Registry} {f : MetricName → Labels → Option ℕ}

theorem Agrees.congr (h : Agrees r f) {f' : MetricName → Labels → Option ℕ}
    (hf : ∀ name labels, Fits name labels → f name labels = f' name labels) : Agrees r f' :=
  ⟨fun hfits ↦ (h.value hfits).trans (hf _ _ hfits), h.known⟩

theorem Agrees.write (h : Agrees r f) {name : MetricName} {labels : Labels} (hfits : Fits name labels)
    {n : ℕ} (hr' : ∀ name' key, Metrics.value r' name' key =
      if name' = name ∧ key = serializeLabels labels then some n else Metrics.value r name' key) :
    Agrees r' fun name' labels' ↦ if name' = name ∧ labels' = labels then some n else f name' labels' := by
  constructor
  · intro name' labels' hfits'
    rw [hr']
    by_cases hname : name' = name
    · subst hname
      by_cases hlabels : labels' = labels
      · rw [if_pos ⟨rfl, congrArg _ hlabels⟩, if_pos ⟨rfl, hlabels⟩]
      · rw [if_neg fun heq ↦ hlabels (hfits'.inj hfits heq.2), if_neg fun heq ↦ hlabels heq.2]
        exact h.value hfits'
    · rw [if_neg fun heq ↦ hname heq.1, if_neg fun heq ↦ hname heq.1]
      exact h.value hfits'
  · intro name' key n' hvalue
    rw [hr'] at hvalue
    split at hvalue
    · rename_i heq
      obtain ⟨rfl, rfl⟩ := heq
      exact ⟨labels, hfits, rfl⟩
    · exact h.known hvalue

theorem Agrees.clear (h : Agrees r f) (name : MetricName) :
    Agrees (clearMetric r name) fun name' labels' ↦ if name' = name then none else f name' labels' := by
  constructor
  · intro name' labels' hfits
    rw [value_clearMetric]
    by_cases hname : name' = name
    · rw [if_pos hname, if_pos hname]
    · rw [if_neg hname, if_neg hname]
      exact h.value hfits
  · intro name' key n hvalue
    rw [value_clearMetric] at hvalue
    exact h.known (Option.ite_none_left_eq_some.mp hvalue).2

theorem Agrees.set (h : Agrees r f) (name : MetricName) (n : ℕ) (htype : (METRIC_DEFS name).type = .gauge)
    (hfits : Fits name []) : ∃ r', set r name n [] = .ok r' ∧ Agrees r' fun name' labels' ↦
      if name' = name ∧ labels' = [] then some n else f name' labels' :=
  ⟨_, set_eq htype hfits n, h.write hfits (value_set r name [] ⟨[], n⟩)⟩

theorem Agrees.zero (h : Agrees r f) (name : MetricName) (hfits : Fits name []) :
    Agrees (setUnlabelledZero r name) fun name' labels' ↦
      if name' = name ∧ labels' = [] then some 0 else f name' labels' :=
  h.write hfits (value_set r name [] ⟨[], 0⟩)

/-- A series that was counted on some times more. -/
def plus (value : Option ℕ) (times : ℕ) : Option ℕ :=
  if times = 0 then value else some (value.getD 0 + times)

theorem plus_succ (value : Option ℕ) (times : ℕ) :
    plus (some (value.getD 0 + 1)) times = plus value (times + 1) := by
  unfold plus
  rw [if_neg times.succ_ne_zero, Option.getD_some]
  split
  · rename_i hzero
    rw [hzero]
  · rw [Nat.add_assoc, Nat.add_comm 1]

theorem Agrees.foldl {hits : List (MetricName × Labels)} (h : Agrees r f)
    (hfits : ∀ hit ∈ hits, Fits hit.1 hit.2) :
    Agrees (hits.foldl (fun r hit ↦ bump r hit.1 hit.2 1) r)
      fun name labels ↦ plus (f name labels) (hits.count (name, labels)) := by
  induction hits generalizing r f with
  | nil => exact h
  | cons hit rest ih =>
    obtain ⟨hfit, hrest⟩ := List.forall_mem_cons.mp hfits
    have hbump := h.write hfit (value_bump r hit.1 hit.2 1)
    rw [h.value hfit] at hbump
    refine (ih hbump hrest).congr fun name labels _ ↦ ?_
    by_cases heq : name = hit.1 ∧ labels = hit.2
    · obtain ⟨rfl, rfl⟩ := heq
      rw [if_pos ⟨rfl, rfl⟩, List.count_cons_self]
      exact plus_succ _ _
    · have hne : hit ≠ (name, labels) := fun h ↦ heq ⟨congrArg Prod.fst h.symm, congrArg Prod.snd h.symm⟩
      rw [if_neg heq, List.count_cons_of_ne hne]

end Agrees

/-! ## What is rendered -/

section Render

variable {localeCompare : List Char → List Char → Bool} {r : Registry}
  {f : MetricName → Labels → Option ℕ}

theorem mem_entries {bucket : OrderedMap (List Char) Series} {key : List Char} {series : Series} :
    (key, series) ∈ entries bucket ↔ bucket.get? key = some series := by
  unfold entries
  rw [List.mem_filterMap]
  constructor
  · rintro ⟨key', -, h⟩
    obtain ⟨series', hget, heq⟩ := Option.map_eq_some_iff.mp h
    cases heq
    exact hget
  · intro h
    exact ⟨key, OrderedMap.mem_keys.mpr ⟨series, h⟩, by rw [h]; rfl⟩

theorem map_fst_entries (bucket : OrderedMap (List Char) Series) :
    (entries bucket).map Prod.fst = bucket.keys := by
  have hkeys : ∀ keys : List (List Char), (∀ key ∈ keys, ∃ series, bucket.get? key = some series) →
      (keys.filterMap fun key ↦ (bucket.get? key).map (key, ·)).map Prod.fst = keys := by
    intro keys h
    induction keys with
    | nil => rfl
    | cons key keys ih =>
      obtain ⟨⟨series, hget⟩, hrest⟩ := List.forall_mem_cons.mp h
      rw [List.filterMap_cons_some (by rw [hget]; rfl), List.map_cons, ih hrest]
  exact hkeys bucket.keys fun key hkey ↦ OrderedMap.mem_keys.mp hkey

/-- The name and the value in the line of a series. -/
def sampleOf (name : MetricName) (entry : List Char × Series) : List Char × List Char :=
  (name.text.toList ++ entry.1, Nat.toDigits 10 entry.2.value)

theorem blank_not_mem_digits (n : ℕ) : ' ' ∉ Nat.toDigits 10 n := fun h ↦
  absurd (NumberText.all_digits n ' ' h) (by decide)

theorem newline_not_mem_digits (n : ℕ) : '\n' ∉ Nat.toDigits 10 n := fun h ↦
  absurd (NumberText.all_digits n '\n' h) (by decide)

theorem newline_not_mem_help (name : MetricName) : '\n' ∉ (METRIC_DEFS name).help.toList := by
  cases name with dsimp only [METRIC_DEFS]
  | aesmsg_http_requests_total | aesmsg_dependency_errors_total | aesmsg_store_memory_fallback =>
    exact not_mem_append (not_mem_ofList (by decide)) (not_mem_ofList (by decide))
  | aesmsg_messages_revoked_total =>
    exact not_mem_append (not_mem_append (not_mem_ofList (by decide)) (not_mem_ofList (by decide)))
      (not_mem_ofList (by decide))
  | _ => exact not_mem_ofList (by decide)

theorem newline_not_mem_comment (name : MetricName) :
    '\n' ∉ ("# HELP " ++ name.text ++ " " ++ (METRIC_DEFS name).help).toList ∧
      '\n' ∉ ("# TYPE " ++ name.text ++ " " ++ (METRIC_DEFS name).type.text).toList := by
  have htype : '\n' ∉ (METRIC_DEFS name).type.text.toList := by
    cases (METRIC_DEFS name).type <;> exact not_mem_ofList (by decide)
  have hblank : '\n' ∉ " ".toList := not_mem_ofList (by decide)
  constructor
  · exact not_mem_append (not_mem_append (not_mem_append (not_mem_ofList (by decide))
      (newline_not_mem_text name)) hblank) (newline_not_mem_help name)
  · exact not_mem_append (not_mem_append (not_mem_append (not_mem_ofList (by decide))
      (newline_not_mem_text name)) hblank) htype

theorem value_of_mem_sorted {name : MetricName} {entry : List Char × Series}
    (h : entry ∈ sorted localeCompare r name) : value r name entry.1 = some entry.2.value := by
  unfold value
  rw [mem_entries.mp (List.mem_mergeSort.mp h)]
  rfl

theorem newline_not_mem_sample (h : Agrees r f) {name : MetricName} {entry : List Char × Series}
    (hentry : entry ∈ sorted localeCompare r name) :
    '\n' ∉ Exposition.sample (sampleOf name entry).1 (sampleOf name entry).2 := by
  obtain ⟨labels, hfits, hkey⟩ := h.known (value_of_mem_sorted hentry)
  unfold Exposition.sample sampleOf
  rw [← hkey, hfits.serializeLabels_eq]
  simp [newline_not_mem_text, hfits.text.2, newline_not_mem_digits]

theorem newline_not_mem_lines (h : Agrees r f) {line : List Char} (hline : line ∈ lines localeCompare r) :
    '\n' ∉ line := by
  obtain ⟨name, -, hline⟩ := List.mem_flatMap.mp hline
  obtain ⟨-, hline⟩ := List.mem_ite_nil_left.mp hline
  rcases List.mem_cons.mp hline with rfl | hline
  · exact (newline_not_mem_comment name).1
  · rcases List.mem_cons.mp hline with rfl | hline
    · exact (newline_not_mem_comment name).2
    · obtain ⟨entry, hentry, rfl⟩ := List.mem_map.mp hline
      exact newline_not_mem_sample h hentry

/-- The samples among the lines of a metric. -/
theorem split_metricLines (name : MetricName) :
    ((metricLines localeCompare r name).filter fun line ↦ line ≠ [] ∧ line.head? ≠ some '#').map
      Exposition.split = (sorted localeCompare r name).map (sampleOf name) := by
  have hsamples : ((sorted localeCompare r name).map fun entry ↦
      Exposition.sample (sampleOf name entry).1 (sampleOf name entry).2).filter
        (fun line ↦ line ≠ [] ∧ line.head? ≠ some '#') = (sorted localeCompare r name).map fun entry ↦
          Exposition.sample (sampleOf name entry).1 (sampleOf name entry).2 := by
    apply List.filter_eq_self.mpr
    intro line hline
    obtain ⟨entry, -, rfl⟩ := List.mem_map.mp hline
    obtain ⟨rest, hhead⟩ := head_text name
    unfold Exposition.sample sampleOf
    rw [hhead]
    rfl
  have hsplit : ((sorted localeCompare r name).map fun entry ↦
      Exposition.sample (sampleOf name entry).1 (sampleOf name entry).2).map Exposition.split =
        (sorted localeCompare r name).map (sampleOf name) := by
    rw [List.map_map]
    apply List.map_congr_left
    intro entry _
    exact Exposition.split_sample (blank_not_mem_digits _)
  unfold metricLines
  split
  · rename_i hempty
    have hnone : entries (r name) = [] :=
      List.map_eq_nil_iff.mp ((map_fst_entries (r name)).trans hempty)
    unfold sorted
    rw [hnone, List.mergeSort_nil]
    rfl
  · rw [List.filter_cons_of_neg (by simp), List.filter_cons_of_neg (by simp)]
    exact (congrArg _ hsamples).trans hsplit

/-- What is read back from a text. -/
theorem read_render (h : Agrees r f) : Exposition.read (render localeCompare r) =
    MetricName.all.flatMap fun name ↦ (sorted localeCompare r name).map (sampleOf name) := by
  have hlines : Exposition.read (render localeCompare r) = ((lines localeCompare r).filter fun line ↦
      line ≠ [] ∧ line.head? ≠ some '#').map Exposition.split := by
    unfold render
    by_cases hempty : lines localeCompare r = []
    · rw [hempty]
      rfl
    · rw [Exposition.intercalate_append hempty]
      exact Exposition.read_lines fun line hline ↦ newline_not_mem_lines h hline
  rw [hlines]
  unfold lines
  rw [List.filter_flatMap, List.map_flatMap]
  exact List.flatMap_congr fun name _ ↦ split_metricLines name

theorem mem_all (name : MetricName) : name ∈ MetricName.all := by
  cases name <;> decide

theorem sampleOf_eq {name : MetricName} {labels : Labels} (h : Fits name labels) (series : Series) :
    sampleOf name (serializeLabels labels, series) =
      (seriesText name labels, Nat.toDigits 10 series.value) := by
  unfold sampleOf seriesText
  rw [h.serializeLabels_eq]

theorem sample_of_mem_sorted (h : Agrees r f) {name : MetricName} {entry : List Char × Series}
    (hentry : entry ∈ sorted localeCompare r name) : ∃ labels, Fits name labels ∧
      f name labels = some entry.2.value ∧
      sampleOf name entry = (seriesText name labels, Nat.toDigits 10 entry.2.value) := by
  have hvalue := value_of_mem_sorted hentry
  obtain ⟨key, series⟩ := entry
  obtain ⟨labels, hfits, rfl⟩ := h.known hvalue
  exact ⟨labels, hfits, (h.value hfits).symm.trans hvalue, sampleOf_eq hfits series⟩

theorem toDigits_injective : Function.Injective (Nat.toDigits 10) := by
  intro m n h
  rw [← Nat.ofDigitChars_ten_toDigits (n := m), h, Nat.ofDigitChars_ten_toDigits]

/-- The samples of a text are the series with a value. -/
structure Faithful (text : List Char) (f : MetricName → Labels → Option ℕ) : Prop where
  value : ∀ name labels, Fits name labels → ∀ n,
    ((seriesText name labels, Nat.toDigits 10 n) ∈ Exposition.read text ↔ f name labels = some n)
  known : ∀ sample ∈ Exposition.read text, ∃ name labels n, Fits name labels ∧
    sample = (seriesText name labels, Nat.toDigits 10 n)
  once : ((Exposition.read text).map Prod.fst).Nodup

theorem faithful_render (h : Agrees r f) : Faithful (render localeCompare r) f where
  value := by
    intro name labels hfits n
    rw [read_render h, List.mem_flatMap]
    constructor
    · rintro ⟨name', -, hsample⟩
      obtain ⟨entry, hentry, heq⟩ := List.mem_map.mp hsample
      obtain ⟨labels', hfits', hvalue, hsample⟩ := sample_of_mem_sorted h hentry
      obtain ⟨hseries, hdigits⟩ := Prod.ext_iff.mp (hsample.symm.trans heq)
      obtain ⟨rfl, rfl⟩ := seriesText_inj hfits' hfits hseries
      rw [hvalue, toDigits_injective hdigits]
    · intro hn
      obtain ⟨series, hget, rfl⟩ := Option.map_eq_some_iff.mp ((h.value hfits).trans hn)
      exact ⟨name, mem_all name, List.mem_map.mpr ⟨(serializeLabels labels, series),
        List.mem_mergeSort.mpr (mem_entries.mpr hget), sampleOf_eq hfits series⟩⟩
  known := by
    intro sample hsample
    rw [read_render h, List.mem_flatMap] at hsample
    obtain ⟨name, -, hsample⟩ := hsample
    obtain ⟨entry, hentry, rfl⟩ := List.mem_map.mp hsample
    obtain ⟨labels, hfits, -, heq⟩ := sample_of_mem_sorted h hentry
    exact ⟨name, labels, entry.2.value, hfits, heq⟩
  once := by
    rw [read_render h, List.map_flatMap, List.nodup_flatMap]
    constructor
    · intro name _
      have hmap : ((sorted localeCompare r name).map (sampleOf name)).map Prod.fst =
          ((sorted localeCompare r name).map Prod.fst).map (name.text.toList ++ ·) := by
        rw [List.map_map, List.map_map]
        rfl
      rw [hmap]
      apply List.Nodup.map fun _ _ heq ↦ List.append_cancel_left heq
      have hperm : ((sorted localeCompare r name).map Prod.fst).Perm (r name).keys := by
        rw [← map_fst_entries]
        exact (List.mergeSort_perm _ _).map Prod.fst
      exact hperm.nodup_iff.mpr (r name).nodup_keys
    · have hnames : MetricName.all.Pairwise (· ≠ ·) := by decide
      apply hnames.imp
      intro name name' hne text htext htext'
      obtain ⟨sample, hsample, rfl⟩ := List.mem_map.mp htext
      obtain ⟨sample', hsample', heq⟩ := List.mem_map.mp htext'
      obtain ⟨entry, hentry, rfl⟩ := List.mem_map.mp hsample
      obtain ⟨entry', hentry', rfl⟩ := List.mem_map.mp hsample'
      obtain ⟨labels, hfits, -, hsample⟩ := sample_of_mem_sorted h hentry
      obtain ⟨labels', hfits', -, hsample'⟩ := sample_of_mem_sorted h hentry'
      rw [hsample, hsample'] at heq
      exact hne (seriesText_inj hfits hfits' heq.symm).1

end Render

end Aesmsg.Api.Metrics
