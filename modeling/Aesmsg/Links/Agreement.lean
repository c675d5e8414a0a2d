import Aesmsg.Links.Revoked
import Aesmsg.Server.MemorySteps
import Aesmsg.Server.PostgresSteps

/-!
# The link list and a server that is reached

## Main results

- `list_agrees_iff`: on mobile the list agrees with a server that answers exactly for up to
  `LIST_MAX_IDS` records; on the web it always does.
- `long_list_offline`: with one record more the mobile list reports the server as unreachable.
-/

namespace Aesmsg.Links

open Client Api Store Threads

/-! ## Chunks -/

section Chunk

variable {α : Type} {items : List α} {size : Nat}

theorem of_mem_chunk {batch : List α} (h : batch ∈ Web.chunk items size) :
    batch.length ≤ size ∧ batch ⊆ items := by
  obtain ⟨k, -, rfl⟩ := List.mem_map.mp h
  refine ⟨List.length_take_le _ _, ?_⟩
  exact fun x hx ↦ List.mem_of_mem_drop (List.mem_of_mem_take hx)

/-- Every item is in a chunk. -/
theorem exists_mem_chunk (hsize : 0 < size) {x : α} (hx : x ∈ items) :
    ∃ batch ∈ Web.chunk items size, x ∈ batch := by
  obtain ⟨i, hi, rfl⟩ := List.mem_iff_getElem.mp hx
  have hmod : i % size < size := Nat.mod_lt i hsize
  have hdiv : i / size * size + i % size = i := Nat.div_add_mod' i size
  have hk : i / size < (items.length + size - 1) / size := by
    rw [Nat.lt_div_iff_mul_lt hsize]
    omega
  refine ⟨_, List.mem_map.mpr ⟨i / size, List.mem_range.mpr hk, rfl⟩, ?_⟩
  refine List.mem_iff_getElem.mpr ⟨i % size, ?_, ?_⟩
  · rw [List.length_take, List.length_drop]
    omega
  · rw [List.getElem_take, List.getElem_drop]
    congr 1

end Chunk

/-! ## Mobile -/

/-- The statuses of a link that recipients can open. -/
def LinkStatus.isLive (status : LinkStatus) : Bool :=
  status = .available || status = .opened || status = .expiring

/-- The list reports the server as reachable, knows the status of every link, and shows the links as
live that are listed and not past their expiry on the client's clock. -/
structure Mobile.Agrees (row : LinkId → Option LinkMetadata) (serverNow : Instant)
    (otherDate : String → Option Int) (now : Int) (records : List SentLinkRecord)
    (result : LoadResult) : Prop where
  reachable : result.serverReachable = true
  links : List.Forall₂ (fun record link ↦ link.id = record.id ∧ link.status ≠ .unknown ∧
    (Listed serverNow (row record.id) → isPast otherDate record.expiresAt now = false →
      link.status.isLive = true)) records result.links

section Mobile

variable (otherDate : String → Option Int) {serverNow : Instant} {row : LinkId → Option LinkMetadata}
  {now : Int}

theorem isLive_of_mem {status : LinkStatus} (h : status ∈ [.opened, .expiring, .available]) :
    status ≠ .unknown ∧ status.isLive = true := by
  cases status with
  | available | opened | expiring => exact ⟨LinkStatus.noConfusion, rfl⟩
  | revoked | expired | unknown => exact absurd h (by decide)

/-- What is shown of a record that was asked for. -/
theorem agrees_reconciled {asked : List LinkId} (records : List SentLinkRecord)
    (h : ∀ record ∈ records, record.id ∈ asked) :
    List.Forall₂ (fun record link ↦ link.id = record.id ∧ link.status ≠ .unknown ∧
      (Listed serverNow (row record.id) → isPast otherDate record.expiresAt now = false →
        link.status.isLive = true)) records
      ((Mobile.reconcileSentLinks otherDate records (some (resultsOf serverNow row asked)) now).map
        (Mobile.toDisplayLink otherDate · now)) := by
  unfold Mobile.reconcileSentLinks
  rw [List.map_map, List.forall₂_map_right_iff, List.forall₂_same]
  intro record hrecord
  dsimp only [Function.comp]
  rw [byId_resultsOf, if_pos (h record hrecord)]
  cases hpast : isPast otherDate record.expiresAt now with
  | true =>
    have hexpired : Mobile.deriveLinkStatus otherDate (Mobile.local_ record .gone) now = .expired :=
      if_pos hpast
    rw [if_pos rfl]
    refine ⟨rfl, ?_, fun _ ↦ Bool.noConfusion⟩
    show Mobile.deriveLinkStatus otherDate (Mobile.local_ record .gone) now ≠ .unknown
    rw [hexpired]
    exact LinkStatus.noConfusion
  | false =>
    rw [if_neg Bool.noConfusion]
    by_cases hlisted : Listed serverNow (row record.id)
    · obtain ⟨r, -, hresult⟩ := resultOf_of_listed hlisted record.id
      rw [hresult]
      dsimp only
      have hlive := deriveLinkStatus_active otherDate ⟨record, .active, some (.int r.opensCount),
        .int r.maxOpens, Calendar.toISOString r.expiresAt⟩ now rfl
      obtain ⟨hunknown, hshown⟩ := isLive_of_mem hlive
      exact ⟨rfl, hunknown, fun _ _ ↦ hshown⟩
    · rw [resultOf_of_not_listed hlisted]
      have hrevoked : Mobile.deriveLinkStatus otherDate (Mobile.local_ record .gone) now = .revoked :=
        if_neg (hpast ▸ Bool.noConfusion)
      refine ⟨rfl, ?_, fun h ↦ absurd h hlisted⟩
      show Mobile.deriveLinkStatus otherDate (Mobile.local_ record .gone) now ≠ .unknown
      rw [hrevoked]
      exact LinkStatus.noConfusion

theorem Mobile.agrees_iff {σ τ : Type} (S : Stores σ τ) (s : σ) {count : Nat}
    (hcount : count ≤ LIST_RATE_LIMIT_MAX) (records : List SentLinkRecord) (hne : records ≠ [])
    (hids : ∀ record ∈ records, isLinkId record.id = true) :
    Mobile.Agrees (S.get s) serverNow otherDate now records
      (Mobile.loadAndReconcile otherDate (served S s count serverNow) records now) ↔
        records.length ≤ LIST_MAX_IDS := by
  unfold Mobile.loadAndReconcile
  rw [if_neg fun h ↦ hne (List.length_eq_zero_iff.mp h)]
  constructor
  · rintro ⟨hreachable, -⟩
    by_contra hlong
    have hthrows : listMessages .mobile (served S s count serverNow) (records.map (·.id)) =
        .error (.apiError 400) := by
      apply listMessages_tooMany .mobile hcount
      rw [List.length_map]
      exact Nat.lt_of_not_le hlong
    rw [hthrows] at hreachable
    cases hreachable
  · intro hlength
    have hserved : listMessages .mobile (served S s count serverNow) (records.map (·.id)) =
        .ok (resultsOf serverNow (S.get s) (records.map (·.id))) := by
      apply listMessages_served .mobile hcount
      · intro id hid
        obtain ⟨record, hrecord, rfl⟩ := List.mem_map.mp hid
        exact hids record hrecord
      · rw [List.length_map]
        exact hlength
    rw [hserved]
    exact ⟨rfl, agrees_reconciled otherDate records fun _ ↦ List.mem_map_of_mem⟩

end Mobile

/-! ## Web -/

/-- The link can be opened, on the clocks of the server and of the client.  The create handler lets no
other `maxOpens` through. -/
structure Web.Live (serverNow : Instant) (now : Int) (r : LinkMetadata) : Prop where
  active : r.status = .active
  unexpired : serverNow < r.expiresAt
  maxOpens : r.maxOpens = -1 ∨ 0 < r.maxOpens
  date : ∃ d : Calendar.Date, r.expiresAt = d.time ∧ now < d.time

/-- The links are shown as live, from the server's answer, that were live when the server answered
each of the requests. -/
def Web.Agrees (row : Nat → LinkId → Option LinkMetadata) (clock : Nat → Instant) (now : Int)
    (records : List Web.SentLinkRecord) (links : List Web.DisplayLink) : Prop :=
  List.Forall₂ (fun record link ↦ link.record = record ∧
    ((∀ k, ∃ r ∈ row k record.id, Web.Live (clock k) now r) →
      link.opensCount.isSome = true ∧ (link.status = .active ∨ link.status = .expiring))) records links

section Web

variable (otherDate : String → Option Int) {now : Int}

theorem record_reconcileLink (record : Web.SentLinkRecord) (serverResult : Option ListMessageResult) :
    (Web.reconcileLink otherDate record serverResult now).record = record := by
  unfold Web.reconcileLink
  split <;> rfl

theorem liveStatus_ahead {msLeft : Int} (h : 0 < msLeft) :
    Web.liveStatus (some msLeft) false = .active ∨ Web.liveStatus (some msLeft) false = .expiring := by
  have hpast : (some msLeft).any (· ≤ 0) = false := decide_eq_false (Int.not_le.mpr h)
  unfold Web.liveStatus
  rw [hpast, if_neg Bool.noConfusion, if_neg Bool.noConfusion]
  split
  · exact .inr rfl
  · exact .inl rfl

/-- A live link is shown as live from its result. -/
theorem reconcileLink_live {serverNow : Instant} {r : LinkMetadata} (h : Web.Live serverNow now r)
    (hopens : 0 < r.maxOpens → (r.opensCount : Int) < r.maxOpens) (record : Web.SentLinkRecord)
    (id : String) :
    let link := Web.reconcileLink otherDate record (some (.active id
      (Calendar.toISOString r.expiresAt) (.int r.maxOpens) (.int r.opensCount))) now
    link.record = record ∧ link.opensCount.isSome = true ∧
      (link.status = .active ∨ link.status = .expiring) := by
  obtain ⟨d, hd, hnow⟩ := h.date
  have hleft : (Api.parseDate otherDate (Calendar.toISOString r.expiresAt)).map (· - now) =
      some (d.time - now) := by
    rw [hd, parseDate_toISOString]
    rfl
  have hopen : (decide (JsNumber.int r.maxOpens ≠ .int (-1)) &&
      decide ((JsNumber.int r.maxOpens).toInt ≤ (JsNumber.int r.opensCount).toInt)) = false := by
    rcases h.maxOpens with hunlimited | hpos
    · rw [hunlimited]
      rfl
    · rw [Bool.and_eq_false_iff]
      exact .inr (decide_eq_false (Int.not_le.mpr (hopens hpos)))
  refine ⟨rfl, rfl, ?_⟩
  have hahead := liveStatus_ahead (Int.sub_pos_of_lt hnow)
  rw [← hleft, ← hopen] at hahead
  exact hahead

/-! ### The results of all batches -/

variable {σ τ : Type} {S : Stores σ τ} {state : Nat → σ} {count : Nat → Nat} {clock : Nat → Instant}
  {ids : List LinkId}

/-- Every result comes from the row that one of the requests has read. -/
theorem of_mem_fetchServerMap (hcount : ∀ k, count k ≤ LIST_RATE_LIMIT_MAX)
    (hids : ∀ id ∈ ids, isLinkId id = true) {result : ListMessageResult}
    (h : result ∈ Web.fetchServerMap (fun k ↦ served S (state k) (count k) (clock k)) ids) :
    ∃ k id, result = resultOf (clock k) id (S.get (state k) id) := by
  obtain ⟨results, hresults, hmem⟩ := List.mem_flatten.mp h
  obtain ⟨k, hk, rfl⟩ := List.mem_mapIdx.mp hresults
  obtain ⟨hlength, hsub⟩ := of_mem_chunk (List.getElem_mem hk)
  rw [listMessages_served .web (hcount k) (fun id hid ↦ hids id (hsub hid)) hlength] at hmem
  obtain ⟨id, -, rfl⟩ := List.mem_map.mp hmem
  exact ⟨k, id, rfl⟩

/-- Every id has a result. -/
theorem exists_mem_fetchServerMap (hcount : ∀ k, count k ≤ LIST_RATE_LIMIT_MAX)
    (hids : ∀ id ∈ ids, isLinkId id = true) {id : LinkId} (h : id ∈ ids) :
    ∃ result ∈ Web.fetchServerMap (fun k ↦ served S (state k) (count k) (clock k)) ids,
      result.id = id := by
  have hchunk : 0 < Web.LIST_CHUNK := by decide
  obtain ⟨batch, hbatch, hid⟩ := exists_mem_chunk hchunk h
  obtain ⟨k, hk, rfl⟩ := List.mem_iff_getElem.mp hbatch
  obtain ⟨hlength, hsub⟩ := of_mem_chunk hbatch
  refine ⟨_, List.mem_flatten.mpr ⟨_, List.mem_mapIdx.mpr ⟨k, hk, rfl⟩, ?_⟩,
    id_resultOf (clock k) id (S.get (state k) id)⟩
  rw [listMessages_served .web (hcount k) (fun id hid ↦ hids id (hsub hid)) hlength]
  exact List.mem_map_of_mem hid

theorem byId_of_mem {results : List ListMessageResult} {result : ListMessageResult}
    (h : result ∈ results) : ∃ result' ∈ results, result'.id = result.id ∧
      byId results result.id = some result' := by
  unfold byId
  cases hfind : results.reverse.find? (·.id = result.id) with
  | none =>
    exact absurd (decide_eq_true rfl) (List.find?_eq_none.mp hfind result (List.mem_reverse.mpr h))
  | some result' =>
    have hid := List.find?_some hfind
    exact ⟨result', List.mem_reverse.mp (List.mem_of_find?_eq_some hfind), of_decide_eq_true hid, rfl⟩

theorem Web.agrees (hcount : ∀ k, count k ≤ LIST_RATE_LIMIT_MAX) (records : List Web.SentLinkRecord)
    (hids : ∀ record ∈ records, isLinkId record.id = true)
    (hopens : ∀ k id, ∀ r ∈ S.get (state k) id, r.status = .active → 0 < r.maxOpens →
      (r.opensCount : Int) < r.maxOpens) :
    Web.Agrees (fun k ↦ S.get (state k)) clock now records
      (Web.refresh otherDate (fun k ↦ served S (state k) (count k) (clock k)) records now) := by
  unfold Web.Agrees Web.refresh
  dsimp only
  rw [List.forall₂_map_right_iff, List.forall₂_same]
  intro record hrecord
  have hids' : ∀ id ∈ records.map (·.id), isLinkId id = true := by
    intro id hid
    obtain ⟨record', hrecord', rfl⟩ := List.mem_map.mp hid
    exact hids record' hrecord'
  obtain ⟨result, hresult, hid⟩ : ∃ result ∈ Web.fetchServerMap
      (fun k ↦ served S (state k) (count k) (clock k)) (records.map (·.id)), result.id = record.id :=
    exists_mem_fetchServerMap hcount hids' (List.mem_map_of_mem hrecord)
  obtain ⟨result', hresult', hid', hbyId⟩ := byId_of_mem hresult
  obtain ⟨k, id, rfl⟩ := of_mem_fetchServerMap hcount hids' hresult'
  rw [id_resultOf, hid] at hid'
  subst hid'
  rw [hid] at hbyId
  rw [hbyId]
  refine ⟨record_reconcileLink otherDate record _, fun hlive ↦ ?_⟩
  obtain ⟨r, hr, hlive⟩ := hlive k
  obtain ⟨r', hr', hresult⟩ := resultOf_of_listed ⟨r, hr, hlive.active, hlive.unexpired⟩ record.id
  cases hr.symm.trans hr'
  rw [hresult]
  exact (reconcileLink_live otherDate hlive (hopens k record.id r hr hlive.active) record record.id).2

end Web

/-! ## Both servers -/

/-- Every active row whose opens are bounded has opens left. -/
theorem opensLeft {χ P σ : Type} {env : Env} {M : Program Server.Request χ P σ Server.Event}
    {links : σ → LinkId → Store.Link} {stage : P → Server.Stage} {inv : σ → Prop} {s₀ : σ}
    (h : Server.LinkServer env M links stage inv) (hempty : links s₀ = fun _ ↦ Link.vacant)
    (hinv : inv s₀) {c : Config P σ Server.Event} (hc : M.Reachable .always s₀ c) {id : LinkId}
    {r : LinkMetadata} (hr : (links c.shared id).row = some r) (hactive : r.status = .active)
    (hpos : 0 < r.maxOpens) : (r.opensCount : Int) < r.maxOpens := by
  obtain ⟨creator, record, hbooked⟩ := (h.holds hempty hinv hc).shared.ledger.booked id r hr
  have hmax : r.maxOpens = record.maxOpens := by
    rw [hbooked.fields]
    rfl
  rw [hmax] at hpos ⊢
  exact hbooked.below hpos hactive

/-- The lists of both clients and a server that is reached, over one kind of store. -/
structure ListAgrees {σ τ : Type} (S : Stores σ τ) (reached : σ → Prop) : Prop where
  mobile : ∀ s, reached s → ∀ count, count ≤ LIST_RATE_LIMIT_MAX → ∀ serverNow otherDate now records,
    records ≠ [] → (∀ record ∈ records, isLinkId record.id = true) →
      (Mobile.Agrees (S.get s) serverNow otherDate now records
        (Mobile.loadAndReconcile otherDate (served S s count serverNow) records now) ↔
          records.length ≤ LIST_MAX_IDS)
  web : ∀ state : Nat → σ, (∀ k, reached (state k)) →
    ∀ count : Nat → Nat, (∀ k, count k ≤ LIST_RATE_LIMIT_MAX) → ∀ clock otherDate now records,
      (∀ record ∈ records, isLinkId record.id = true) →
        Web.Agrees (fun k ↦ S.get (state k)) clock now records
          (Web.refresh otherDate (fun k ↦ served S (state k) (count k) (clock k)) records now)

/-- The mobile list agrees with a server that answers exactly for up to `LIST_MAX_IDS` records, the
list of the web always does. -/
theorem list_agrees_iff (env : Env) :
    ListAgrees memoryStores (fun s ↦ ∃ c,
      (Server.Memory.program env).Reachable .always MemoryStore.empty c ∧ c.shared = s) ∧
    ListAgrees pgStores fun db ↦ ∃ c,
      (Server.Postgres.program env).Reachable .always Server.Postgres.State.initial c ∧
        c.shared.db = db := by
  constructor
  · refine ⟨?_, ?_⟩
    · intro s _ count hcount serverNow otherDate now records hne hids
      exact Mobile.agrees_iff otherDate memoryStores s hcount records hne hids
    · intro state hstate count hcount clock otherDate now records hids
      refine Web.agrees otherDate hcount records hids ?_
      intro k id r hr hactive hpos
      obtain ⟨c, hc, hshared⟩ := hstate k
      rw [← hshared] at hr
      exact opensLeft (Server.Memory.linkServer env) rfl trivial hc hr hactive hpos
  · refine ⟨?_, ?_⟩
    · intro s _ count hcount serverNow otherDate now records hne hids
      exact Mobile.agrees_iff otherDate pgStores s hcount records hne hids
    · intro state hstate count hcount clock otherDate now records hids
      refine Web.agrees otherDate hcount records hids ?_
      intro k id r hr hactive hpos
      obtain ⟨c, hc, hshared⟩ := hstate k
      rw [← hshared] at hr
      exact opensLeft (Server.Postgres.linkServer env) rfl (by rintro id row ⟨⟩) hc hr hactive hpos

/-- A link whose opens have run out, and another one that is live. -/
def openedAndLive : List (Threads.Action Server.Request Server.Memory.Input) :=
  openedOnce ++ [.spawn (.createWithCiphertext ⟨"BBBBBBBBBBBBBBBB", 1000, 2, none⟩ [7]),
    .run 2 (.at 2), .run 2 (.at 2)]

/-- The lists of these two links and a third that the server has never stored. -/
theorem list_agrees_iff_live : ∃ s,
    memoryStores.get s "BBBBBBBBBBBBBBBB" =
      some ⟨"BBBBBBBBBBBBBBBB", .active, none, 1000, 2, 0⟩ ∧
    Mobile.Agrees (memoryStores.get s) 5 (fun _ ↦ none) 10 (threeIds.map sampleRecord)
      (Mobile.loadAndReconcile (fun _ ↦ none) (served memoryStores s 1 5)
        (threeIds.map sampleRecord) 10) ∧
    Web.Agrees (fun _ ↦ memoryStores.get s) (fun _ ↦ 5) 10 (threeIds.map recordOf)
      (Web.refresh (fun _ ↦ none) (fun _ ↦ served memoryStores s 1 5) (threeIds.map recordOf) 10) := by
  have hrun : ((Server.Memory.program .sample).exec .always
      (Threads.Program.start MemoryStore.empty) openedAndLive).map
        (fun c ↦ memoryStores.get c.shared "BBBBBBBBBBBBBBBB") =
      some (some ⟨"BBBBBBBBBBBBBBBB", .active, none, 1000, 2, 0⟩) := by decide
  obtain ⟨c, hc, hrow⟩ := Option.map_eq_some_iff.mp hrun
  have hreached := Threads.Program.runs_of_exec hc
  have hagrees := (list_agrees_iff .sample).1
  refine ⟨c.shared, hrow, ?_, ?_⟩
  · exact (hagrees.mobile c.shared ⟨c, hreached, rfl⟩ 1 (by decide) 5 (fun _ ↦ none) 10
      (threeIds.map sampleRecord) (by decide) (by decide)).mpr (by decide)
  · exact hagrees.web (fun _ ↦ c.shared) (fun _ ↦ ⟨c, hreached, rfl⟩) (fun _ ↦ 1) (fun _ ↦ by decide)
      (fun _ ↦ 5) (fun _ ↦ none) 10 (threeIds.map recordOf) (by decide)

/-- The record with number `n`. -/
def numbered (n : Nat) : SentLinkRecord :=
  sampleRecord (String.ofList (List.replicate 13 'A' ++
    [n / 100, n / 10 % 10, n % 10].map fun digit ↦ Char.ofNat (48 + digit)))

/-- The number that ends an id. -/
def numberOf (id : LinkId) : Nat := (id.toList.drop 13).foldl (fun n c ↦ 10 * n + (c.toNat - 48)) 0

theorem nodup_numbered : (((List.range 101).map numbered).map SentLinkRecord.id).Nodup := by
  have hread : (((List.range 101).map numbered).map SentLinkRecord.id).map numberOf = List.range 101 := by
    decide +kernel
  refine List.Nodup.of_map numberOf ?_
  rw [hread]
  exact List.nodup_range

/-- 101 records of different links that the server has never stored. -/
theorem long_list_offline : ¬∀ s, (∃ c, (Server.Memory.program .sample).Reachable .always
    MemoryStore.empty c ∧ c.shared = s) → ∀ count, count ≤ LIST_RATE_LIMIT_MAX →
      ∀ serverNow otherDate now records, records ≠ [] → (records.map SentLinkRecord.id).Nodup →
        (∀ record ∈ records, isLinkId record.id = true) →
          Mobile.Agrees (memoryStores.get s) serverNow otherDate now records
            (Mobile.loadAndReconcile otherDate (served memoryStores s count serverNow) records now) := by
  intro h
  have hids : ∀ record ∈ (List.range 101).map numbered, isLinkId record.id = true := by
    decide +kernel
  have hagrees := h MemoryStore.empty ⟨_, .refl, rfl⟩ 1 (by decide) 5 (fun _ ↦ none) 10 _
    (by simp) nodup_numbered hids
  have hlength := (Mobile.agrees_iff _ memoryStores MemoryStore.empty (by decide) _ (by simp)
    hids).mp hagrees
  rw [List.length_map, List.length_range] at hlength
  exact absurd hlength (by decide)

end Aesmsg.Links
