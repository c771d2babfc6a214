import Oati.TypeScript.HeaderCodec
import Oati.TypeScript.LookupCache

/-!
# The order of lookups

The operations of one client, one after the other. Responses are numbered in their order, and a
record carries the number of the response that brought it.

* `Kept`, `Brought`: where the record of a lookup comes from.
* `lookup_effect`: what a lookup returns and does to the entries of its key.
* `ReplacesOlder`: a record that must not be stored is brought only where there is no older one.
* `hit_not_older`: then a hit is never older than what was returned before.
* `older_hit_after_reload`: otherwise the entry stays, and is a hit after the newer record.
-/

namespace Oati.TypeScript

open Prog

variable {engine : Engine} {client : OatiLookupClient} {key : LookupKey} {options : LookupOptions}
  {s s' s'' : ClientState} {t u : LookupPast}

/-! ### Calls and the shared state -/

/-- The calls that read or change the cache. -/
def usesCache : LookupCall → Prop
  | .readCache _ _ | .store _ _ | .clear _ => True
  | _ => False

theorem ClientServed.responses {event : Event LookupAnswer LookupThrown}
    (h : ClientServed client s event s') : s.responses ≤ s'.responses := by
  cases h with
  | fetch => exact Nat.le_succ _
  | hit | miss | store | clear | outside => exact le_rfl

theorem ClientServed.entries_eq {event : Event LookupAnswer LookupThrown}
    (h : ClientServed client s event s') (hevent : ¬ usesCache event.call) :
    s'.entries = s.entries := by
  cases h with
  | hit | store | clear => exact absurd trivial hevent
  | miss | fetch | outside => rfl

/-- The number of a response is one of its call. -/
theorem ClientServed.number {request : LookupRequest} {response : ResolverResponse}
    (h : ClientServed client s ⟨.fetch request, .ok (some response)⟩ s') :
    s.responses ≤ response.number ∧ response.number < s'.responses := by
  cases h with
  | fetch hnumber =>
    rw [hnumber response rfl]
    exact ⟨le_rfl, Nat.lt_succ_self _⟩
  | outside hc => cases hc

theorem serves_responses (h : Serves (ClientServed client) s t s') :
    s.responses ≤ s'.responses := by
  induction h with
  | nil => exact le_rfl
  | cons hserve _ ih => exact hserve.responses.trans ih

theorem serves_entries_eq (h : Serves (ClientServed client) s t s')
    (ht : ∀ event ∈ t, ¬ usesCache event.call) : s'.entries = s.entries := by
  induction h with
  | nil => rfl
  | cons hserve _ ih =>
    obtain ⟨hevent, hrest⟩ := List.forall_mem_cons.mp ht
    exact (ih hrest).trans (hserve.entries_eq hevent)

theorem serves_number (h : Serves (ClientServed client) s t s') {request : LookupRequest}
    {response : ResolverResponse} (hanswered : Answered t (.fetch request) (.ok (some response))) :
    s.responses ≤ response.number ∧ response.number < s'.responses := by
  induction h with
  | nil => cases hanswered
  | cons hserve hrest ih =>
    rcases List.mem_cons.mp hanswered with heq | hmem
    · rw [← heq] at hserve
      exact ⟨hserve.number.1, hserve.number.2.trans_le (serves_responses hrest)⟩
    · obtain ⟨hlow, hhigh⟩ := ih hmem
      exact ⟨hserve.responses.trans hlow, hhigh⟩

/-- A client without a cache gets no entries. -/
theorem serves_uncached (hcache : client.cacheOptions = none)
    (h : Serves (ClientServed client) s t s') {cacheKey : String} {entry : CacheEntry}
    (hmem : (cacheKey, entry) ∈ s'.entries) : (cacheKey, entry) ∈ s.entries := by
  induction h with
  | nil => exact hmem
  | cons hserve _ ih =>
    have hnext := ih hmem
    cases hserve with
    | hit hentry => exact mem_touch hentry hnext
    | store =>
      rw [storeEntry, hcache] at hnext
      exact hnext
    | clear => exact (InsertionMap.mem_keep.mp hnext).1
    | miss | fetch | outside => exact hnext

/-! ### Requests do not use the cache -/

theorem avoids_signalAborted : Avoids usesCache (signalAborted options) := by
  unfold signalAborted
  exact .ite (avoids_perform id) (avoids_pure _)

/-- The clock is all that the rate limits of a response call. -/
theorem avoids_rateLimitInfo {P : LookupCall → Prop} (hP : ¬ P .now) (response : ResolverResponse) :
    Avoids P (rateLimitInfo engine response) := by
  have hretry : Avoids P (retryAfter engine (response.headers.get "Retry-After")) := by
    unfold retryAfter
    split
    · exact avoids_pure _
    · split
      · exact avoids_pure _
      · exact avoids_pure _
      · exact (avoids_perform hP).bind fun _ => avoids_pure _
  refine hretry.bind fun retry => ?_
  split
  · exact avoids_pure _
  · split
    · exact avoids_pure _
    · exact avoids_throw _

theorem avoids_expiry (response : ResolverResponse) (cache : Option LookupCacheOptions) :
    Avoids usesCache (expiry engine response cache) := by
  unfold expiry
  refine .ite (avoids_pure _) ?_
  split
  · exact (avoids_perform id).bind fun _ => avoids_pure _
  · split
    · exact avoids_pure _
    · exact (avoids_perform id).bind fun _ => avoids_pure _

theorem avoids_readPayload (response : ResolverResponse) (maximum : ℕ) :
    Avoids usesCache (readPayload engine response maximum) := by
  unfold readPayload
  refine .ite (avoids_throw _) ((avoids_perform id).bind fun stream => ?_)
  cases stream with
  | none => exact avoids_pure _
  | some stream => exact avoids_ofExcept _

theorem avoids_handleResponse (cached : Option CacheEntry) (response : ResolverResponse) :
    Avoids usesCache (handleResponse engine client key cached response) := by
  refine (avoids_rateLimitInfo id _).bind fun rateLimit => ?_
  split
  · exact (avoids_expiry _ _).bind fun _ => avoids_pure _
  · refine (avoids_readPayload _ _).bind fun payload => .ite (avoids_throw _) ?_
    split
    · exact avoids_throw _
    · exact (avoids_expiry _ _).bind fun _ => avoids_pure _

theorem avoids_requestOnce (resolverUrl : String) (cached : Option CacheEntry) :
    Avoids usesCache (requestOnce engine client resolverUrl key options cached) := by
  have hfetch : Avoids usesCache (fetchRecord engine client resolverUrl key cached) := by
    refine (avoids_perform id).bind fun response => ?_
    cases response with
    | none => exact avoids_throw _
    | some response => exact avoids_handleResponse _ _
  refine (avoids_ofExcept _).bind fun timeoutMs => hfetch.attempt.bind fun outcome => ?_
  split
  · exact avoids_pure _
  · exact avoids_throw _
  · refine avoids_signalAborted.bind fun aborted => .ite (avoids_throw _) ?_
    exact (avoids_perform id).bind fun timedOut => .ite (avoids_throw _) (avoids_throw _)

theorem avoids_retryLoop {retry : LookupRetryOptions} {request : LookupProg RequestedRecord}
    (hrequest : Avoids usesCache request) (left : ℕ) :
    Avoids usesCache (retryLoop retry request left) := by
  induction left with
  | zero => exact hrequest
  | succ left ih =>
    refine hrequest.attempt.bind fun outcome => ?_
    split
    · exact avoids_pure _
    · exact avoids_throw _
    · refine .ite (Avoids.bind ?_ fun _ => ih) (avoids_throw _)
      exact (avoids_perform id).bind fun cut => .ite (avoids_throw _) (avoids_pure _)

/-! ### Where a record comes from -/

/-- An entry of the cache has the record. -/
def Kept (s : ClientState) (key : LookupKey) (record : FetchedRecord) : Prop :=
  ∃ entry, (key.cacheKey, entry) ∈ s.entries ∧ entry.record = some record

/-- A response of the trace, a success, brought the record that was asked for: its body is read
after its head, with nothing but the clock in between. -/
def Brought (engine : Engine) (client : OatiLookupClient) (key : LookupKey) (t : LookupPast)
    (response : ResolverResponse) (record : FetchedRecord) : Prop :=
  ∃ request before middle after stream payload,
    t = before ++ (⟨.fetch request, .ok (some response)⟩ ::
      (middle ++ ⟨.readBody, .ok (some stream)⟩ :: after)) ∧
    (∀ event ∈ middle, event.call = .now) ∧ (200 ≤ response.status ∧ response.status ≤ 299) ∧
    declaredTooLarge engine response client.maxResponseBytes = false ∧
    collectPayload engine response client.maxResponseBytes stream = .ok payload ∧
    acceptRecord engine key response payload = some record

theorem Brought.append {response : ResolverResponse} {record : FetchedRecord}
    (h : Brought engine client key t response record) (before after : LookupPast) :
    Brought engine client key (before ++ (t ++ after)) response record := by
  obtain ⟨request, before', middle, after', stream, payload, rfl, hrest⟩ := h
  refine ⟨request, before ++ before', middle, after' ++ after, stream, payload, ?_, hrest⟩
  simp only [List.append_assoc, List.cons_append]

theorem Brought.answered {response : ResolverResponse} {record : FetchedRecord}
    (h : Brought engine client key t response record) :
    ∃ request, Answered t (.fetch request) (.ok (some response)) := by
  obtain ⟨request, before, middle, after, stream, payload, rfl, -⟩ := h
  exact ⟨request, List.mem_append_right _ List.mem_cons_self⟩

theorem Brought.number {response : ResolverResponse} {record : FetchedRecord}
    (h : Brought engine client key t response record) : record.response = response.number := by
  obtain ⟨request, before, middle, after, stream, payload, -, -, -, -, -, haccept⟩ := h
  exact (acceptRecord_eq_some haccept).2

/-- What a request has found: the record of the entry it may reuse, or a new one. -/
def FoundRecord (engine : Engine) (client : OatiLookupClient) (key : LookupKey)
    (cached : Option CacheEntry) (t : LookupPast) (requested : RequestedRecord) : Prop :=
  (∃ entry, cached = some entry ∧ entry.record = some requested.record) ∨
    ∃ response, Brought engine client key t response requested.record ∧
      requested.cacheable = isCacheable response

theorem FoundRecord.append {cached : Option CacheEntry} {requested : RequestedRecord}
    (h : FoundRecord engine client key cached t requested) (before after : LookupPast) :
    FoundRecord engine client key cached (before ++ (t ++ after)) requested :=
  h.imp_right fun ⟨response, hbrought, hcacheable⟩ =>
    ⟨response, hbrought.append before after, hcacheable⟩

/-- A body that was read and accepted. -/
theorem run_readPayload {response : ResolverResponse} {payload : Option Value}
    {record : FetchedRecord}
    (h : Run (readPayload engine response client.maxResponseBytes) t (.ok payload))
    (haccept : acceptRecord engine key response payload = some record) :
    ∃ stream, t = [⟨.readBody, .ok (some stream)⟩] ∧
      declaredTooLarge engine response client.maxResponseBytes = false ∧
      collectPayload engine response client.maxResponseBytes stream = .ok payload := by
  unfold readPayload at h
  split at h
  · cases (run_throw_iff.mp h).2
  next hsize =>
    obtain ⟨body, t₁, t₂, rfl, hbody, hcollect⟩ := run_bind_ok_iff.mp h
    obtain rfl := run_perform_iff.mp hbody
    cases body with
    | none =>
      obtain ⟨-, hpayload⟩ := run_pure_iff.mp hcollect
      obtain rfl := Except.ok.inj hpayload
      cases haccept
    | some stream =>
      obtain ⟨rfl, hpayload⟩ := run_ofExcept_iff.mp hcollect
      exact ⟨stream, rfl, eq_false_of_ne_true hsize, hpayload.symm⟩

theorem foundRecord_of_handleResponse {resolverUrl : String} {etag : Option String}
    {cached : Option CacheEntry} {response : ResolverResponse} {requested : RequestedRecord}
    (h : Run (handleResponse engine client key cached response) t (.ok requested)) :
    FoundRecord engine client key cached
      (⟨.fetch ⟨resolverUrl, key, etag⟩, .ok (some response)⟩ :: t) requested := by
  obtain ⟨rateLimit, t₁, t₂, rfl, hrate, h⟩ := run_bind_ok_iff.mp h
  split at h
  next entry record hrevalidated =>
    -- a response `304`: the record is that of the entry
    obtain ⟨expiresAt, t₃, t₄, rfl, -, h⟩ := run_bind_ok_iff.mp h
    obtain ⟨-, hrequested⟩ := run_pure_iff.mp h
    obtain rfl := Except.ok.inj hrequested
    split_ifs at hrevalidated
    obtain ⟨entry', hentry, hrecord⟩ := Option.bind_eq_some_iff.mp hrevalidated
    obtain ⟨record', hrecord', hpair⟩ := Option.map_eq_some_iff.mp hrecord
    obtain ⟨rfl, rfl⟩ := Prod.mk.inj hpair
    exact .inl ⟨entry', hentry, hrecord'⟩
  next =>
    obtain ⟨payload, t₃, t₄, rfl, hpayload, h⟩ := run_bind_ok_iff.mp h
    split at h
    · cases (run_throw_iff.mp h).2
    next hstatus =>
      rw [not_or, not_lt, not_lt] at hstatus
      split at h
      · cases (run_throw_iff.mp h).2
      next record haccept =>
        obtain ⟨expiresAt, t₅, t₆, rfl, -, h⟩ := run_bind_ok_iff.mp h
        obtain ⟨-, hrequested⟩ := run_pure_iff.mp h
        obtain rfl := Except.ok.inj hrequested
        obtain ⟨stream, rfl, hsize, hcollect⟩ := run_readPayload hpayload haccept
        have hclock : Avoids (fun c => ¬ c = .now) (rateLimitInfo engine response) :=
          avoids_rateLimitInfo (not_not.mpr rfl) response
        refine .inr ⟨response, ⟨⟨resolverUrl, key, etag⟩, [], t₁, t₅ ++ t₆, stream, payload, ?_, fun event hevent => ?_,
          hstatus, hsize, hcollect, haccept⟩, rfl⟩
        · simp only [List.nil_append, List.cons_append]
        · exact not_not.mp (hclock _ _ hrate event hevent)

theorem foundRecord_of_requestOnce {resolverUrl : String} {cached : Option CacheEntry}
    {requested : RequestedRecord}
    (h : Run (requestOnce engine client resolverUrl key options cached) t (.ok requested)) :
    FoundRecord engine client key cached t requested := by
  obtain ⟨timeoutMs, t₁, t₂, rfl, htimeout, h⟩ := run_bind_ok_iff.mp h
  obtain ⟨outcome, t₃, t₄, rfl, hfetch, h⟩ := run_bind_ok_iff.mp h
  obtain ⟨outcome', hfetch, houtcome⟩ := run_attempt_iff.mp hfetch
  obtain rfl := Except.ok.inj houtcome
  split at h
  · obtain ⟨rfl, hrequested⟩ := run_pure_iff.mp h
    obtain rfl := Except.ok.inj hrequested
    obtain ⟨answer, t₅, t₆, rfl, hanswer, hhandle⟩ := run_bind_ok_iff.mp hfetch
    obtain rfl := run_perform_iff.mp hanswer
    cases answer with
    | none => cases (run_throw_iff.mp hhandle).2
    | some response => exact (foundRecord_of_handleResponse hhandle).append t₁ []
  · cases (run_throw_iff.mp h).2
  · -- a request that failed returns nothing
    obtain ⟨aborted, t₅, t₆, rfl, -, h⟩ := run_bind_ok_iff.mp h
    split at h
    · cases (run_throw_iff.mp h).2
    · obtain ⟨timedOut, t₇, t₈, rfl, -, h⟩ := run_bind_ok_iff.mp h
      split at h
      · cases (run_throw_iff.mp h).2
      · cases (run_throw_iff.mp h).2

/-- The induction is on the retries left. -/
theorem foundRecord_of_retryLoop {retry : LookupRetryOptions} {request : LookupProg RequestedRecord}
    {cached : Option CacheEntry} {requested : RequestedRecord}
    (hrequest : ∀ t, Run request t (.ok requested) →
      FoundRecord engine client key cached t requested) (left : ℕ) :
    ∀ t, Run (retryLoop retry request left) t (.ok requested) →
      FoundRecord engine client key cached t requested := by
  induction left with
  | zero => exact hrequest
  | succ left ih =>
    intro t h
    obtain ⟨outcome, t₁, t₂, rfl, hattempt, h⟩ := run_bind_ok_iff.mp h
    obtain ⟨outcome', hattempt, houtcome⟩ := run_attempt_iff.mp hattempt
    obtain rfl := Except.ok.inj houtcome
    split at h
    · obtain ⟨rfl, hrequested⟩ := run_pure_iff.mp h
      obtain rfl := Except.ok.inj hrequested
      exact (hrequest t₁ hattempt).append [] []
    · cases (run_throw_iff.mp h).2
    · split at h
      · obtain ⟨-, t₃, t₄, rfl, -, h⟩ := run_bind_ok_iff.mp h
        have hfound := (ih t₄ h).append (t₁ ++ t₃) []
        rwa [List.append_nil, List.append_assoc] at hfound
      · cases (run_throw_iff.mp h).2

/-! ### What a lookup does -/

/-- What a lookup returns and does to the entries of its key. -/
structure LookupEffect (engine : Engine) (client : OatiLookupClient) (key : LookupKey)
    (options : LookupOptions) (s s' : ClientState) (t : LookupPast)
    (r : Except LookupThrown LookupResponse) : Prop where
  responses : s.responses ≤ s'.responses
  entries : ∀ cacheKey entry, (cacheKey, entry) ∈ s'.entries → (cacheKey, entry) ∈ s.entries ∨
    cacheKey = key.cacheKey ∧ ∀ record, entry.record = some record →
      ∃ response, r = .ok response ∧ response.record = record
  hit : ∀ response, r = .ok response → response.cache = .hit → Kept s key response.record
  record : ∀ response, r = .ok response → Kept s key response.record ∨
    ∃ answer, Brought engine client key t answer response.record ∧
      s.responses ≤ answer.number ∧ answer.number < s'.responses ∧
      (options.cache ≠ .noStore → isCacheable answer = true → client.cacheOptions ≠ none →
        ∀ entry, (key.cacheKey, entry) ∈ s'.entries → entry.record = some response.record)

/-- One that fails, having stored no record. -/
theorem LookupEffect.of_error {e : LookupThrown} (hserve : Serves (ClientServed client) s t s')
    (h : ∀ cacheKey entry, (cacheKey, entry) ∈ s'.entries → (cacheKey, entry) ∈ s.entries ∨
      cacheKey = key.cacheKey ∧ entry.record = none) :
    LookupEffect engine client key options s s' t (.error e) where
  responses := serves_responses hserve
  entries cacheKey entry hmem := (h cacheKey entry hmem).imp_right fun ⟨hkey, hnone⟩ =>
    ⟨hkey, fun record hrecord => by rw [hnone] at hrecord; cases hrecord⟩
  hit _ h := by cases h
  record _ h := by cases h

/-- What comes before it does not use the cache. -/
theorem LookupEffect.after {r : Except LookupThrown LookupResponse}
    (h : LookupEffect engine client key options s' s'' u r)
    (hserve : Serves (ClientServed client) s t s') (hentries : s'.entries = s.entries) :
    LookupEffect engine client key options s s'' (t ++ u) r where
  responses := (serves_responses hserve).trans h.responses
  entries := hentries ▸ h.entries
  hit response hr hcache := by
    obtain ⟨entry, hentry, hrecord⟩ := h.hit response hr hcache
    exact ⟨entry, hentries ▸ hentry, hrecord⟩
  record response hr := by
    refine (h.record response hr).imp (fun ⟨entry, hentry, hrecord⟩ => ⟨entry, hentries ▸ hentry,
      hrecord⟩) fun ⟨answer, hbrought, hlow, hhigh, hstored⟩ => ?_
    have hlonger := hbrought.append t []
    rw [List.append_nil] at hlonger
    exact ⟨answer, hlonger, (serves_responses hserve).trans hlow, hhigh, hstored⟩

/-- A store is answered, and the entry is the only one of its key. -/
theorem serves_store {cacheKey : String} {entry : CacheEntry}
    {answer : Except LookupThrown Unit}
    (h : Serves (ClientServed client) s [⟨.store cacheKey entry, answer⟩] s') :
    s'.responses = s.responses ∧ s'.entries = storeEntry client s.entries cacheKey entry ∧
      answer = .ok () := by
  obtain _ | ⟨hserve, hrest⟩ := h
  cases hrest
  cases hserve with
  | store => exact ⟨rfl, rfl, rfl⟩
  | outside hc => cases hc

theorem storeEntry_unique {entries : InsertionMap String CacheEntry} {cacheKey : String}
    {entry found : CacheEntry} (hcache : client.cacheOptions ≠ none)
    (h : (cacheKey, found) ∈ storeEntry client entries cacheKey entry) : found = entry := by
  unfold storeEntry at h
  split at h
  next hnone => exact absurd hnone hcache
  · obtain hnew | hold := InsertionMap.mem_set (InsertionMap.mem_trim h)
    · exact (Prod.mk.inj hnew).2
    · exact absurd rfl (InsertionMap.mem_delete.mp hold).2

theorem avoids_requestWithRetry (resolverUrl : String) (cached : Option CacheEntry) :
    Avoids usesCache (requestWithRetry engine client resolverUrl key options cached) :=
  avoids_retryLoop (avoids_requestOnce resolverUrl cached) _

/-- The lookup of one resolver. -/
theorem lookupResolver_effect {cached : Option CacheEntry} {resolverUrl : String}
    {r : Except LookupThrown LookupResponse}
    (hcached : ∀ entry, cached = some entry → (key.cacheKey, entry) ∈ s.entries)
    (h : Run (lookupResolver engine client key options cached resolverUrl) t r)
    (hserve : Serves (ClientServed client) s t s') :
    LookupEffect engine client key options s s' t r ∧
      ∀ e, r = .error e → s'.entries = s.entries := by
  rcases run_bind_iff.mp h with ⟨e, hrequest, rfl⟩ | ⟨requested, t₁, t₂, rfl, hrequest, hrest⟩
  · have hentries := serves_entries_eq hserve (avoids_requestWithRetry _ _ _ _ hrequest)
    exact ⟨.of_error hserve fun _ _ hmem => .inl (hentries ▸ hmem), fun _ _ => hentries⟩
  · obtain ⟨s₁, hserve₁, hserve₂⟩ := hserve.split
    have hentries := serves_entries_eq hserve₁ (avoids_requestWithRetry _ _ _ _ hrequest)
    have hfound := foundRecord_of_retryLoop (fun _ => foundRecord_of_requestOnce) _ _ hrequest
    have hrecord : ∀ after, Kept s key requested.record ∨
        ∃ answer, Brought engine client key (t₁ ++ after) answer requested.record ∧
          s.responses ≤ answer.number ∧ answer.number < s₁.responses ∧
          requested.cacheable = isCacheable answer := by
      intro after
      refine hfound.imp (fun ⟨entry, hentry, hrecord⟩ => ?_) fun ⟨answer, hbrought, hcacheable⟩ => ?_
      · refine ⟨entry, hcached entry ?_, hrecord⟩
        split_ifs at hentry
        exact (Option.filter_eq_some_iff.mp hentry).1
      · obtain ⟨request, hanswered⟩ := hbrought.answered
        obtain ⟨hlow, hhigh⟩ := serves_number hserve₁ hanswered
        exact ⟨answer, hbrought.append [] after, hlow, hhigh, hcacheable⟩
    have hstate : (if requested.revalidated then LookupCacheState.revalidated else .miss) ≠ .hit := by
      split_ifs
      · decide
      · decide
    dsimp only at hrest
    by_cases hstore : options.cache ≠ .noStore ∧ requested.cacheable = true
    · rw [if_pos hstore] at hrest
      rcases run_bind_iff.mp hrest with ⟨e, hcall, -⟩ | ⟨_, t₃, t₄, rfl, hcall, hpure⟩
      · obtain rfl := run_perform_iff.mp hcall
        cases (serves_store hserve₂).2.2
      · obtain rfl := run_perform_iff.mp hcall
        obtain ⟨rfl, rfl⟩ := run_pure_iff.mp hpure
        rw [List.append_nil] at hserve₂ hserve ⊢
        obtain ⟨hnumbers, hstored, -⟩ := serves_store hserve₂
        refine ⟨⟨serves_responses hserve, fun cacheKey entry hmem => ?_, fun response hr hhit => ?_,
          fun response hr => ?_⟩, fun _ he => by cases he⟩
        · rw [hstored] at hmem
          obtain hold | ⟨rfl, rfl⟩ := mem_storeEntry hmem
          · exact .inl (hentries ▸ hold)
          · refine .inr ⟨rfl, fun record hrecord => ⟨_, rfl, ?_⟩⟩
            exact Option.some.inj hrecord
        · obtain rfl := Except.ok.inj hr
          exact absurd hhit hstate
        · obtain rfl := Except.ok.inj hr
          refine (hrecord _).imp_right fun ⟨answer, hbrought, hlow, hhigh, _⟩ =>
            ⟨answer, hbrought, hlow, hnumbers ▸ hhigh, fun _ _ hcache entry hmem => ?_⟩
          rw [hstored] at hmem
          rw [storeEntry_unique hcache hmem]
    · rw [if_neg hstore] at hrest
      obtain ⟨rfl, rfl⟩ := run_pure_iff.mp hrest
      cases hserve₂
      refine ⟨⟨serves_responses hserve, fun cacheKey entry hmem => .inl (hentries ▸ hmem),
        fun response hr hhit => ?_, fun response hr => ?_⟩, fun _ he => by cases he⟩
      · obtain rfl := Except.ok.inj hr
        exact absurd hhit hstate
      · obtain rfl := Except.ok.inj hr
        refine (hrecord _).imp_right fun ⟨answer, hbrought, hlow, hhigh, hcacheable⟩ =>
          ⟨answer, hbrought, hlow, hhigh, fun hmode hcache => ?_⟩
        exact absurd ⟨hmode, hcacheable.trans hcache⟩ hstore

/-- The store that follows a not-found answer has no record. -/
theorem storeNotFound_entries {resolverUrl : String} {error : OatiLookupError}
    {r : Except LookupThrown Unit}
    (h : Run (storeNotFound client key options resolverUrl error) t r)
    (hserve : Serves (ClientServed client) s t s') {cacheKey : String} {entry : CacheEntry}
    (hmem : (cacheKey, entry) ∈ s'.entries) :
    (cacheKey, entry) ∈ s.entries ∨ cacheKey = key.cacheKey ∧ entry.record = none := by
  unfold storeNotFound at h
  split at h
  · split_ifs at h
    · rcases run_bind_iff.mp h with ⟨e, hcall, -⟩ | ⟨now, t₁, t₂, rfl, hcall, hstore⟩
      · obtain rfl := run_perform_iff.mp hcall
        have hentries := serves_entries_eq hserve (List.forall_mem_singleton.mpr id)
        exact .inl (hentries ▸ hmem)
      · obtain rfl := run_perform_iff.mp hcall
        obtain rfl := run_perform_iff.mp hstore
        obtain ⟨s₁, hserve₁, hserve₂⟩ := hserve.split
        have hentries := serves_entries_eq hserve₁ (List.forall_mem_singleton.mpr id)
        rw [(serves_store hserve₂).2.1] at hmem
        obtain hold | ⟨rfl, rfl⟩ := mem_storeEntry hmem
        · exact .inl (hentries ▸ hold)
        · exact .inr ⟨rfl, rfl⟩
    · obtain ⟨rfl, -⟩ := run_pure_iff.mp h
      cases hserve
      exact .inl hmem
  · obtain ⟨rfl, -⟩ := run_pure_iff.mp h
    cases hserve
    exact .inl hmem

/-- The loop over the resolvers. The induction is on those that are left. -/
theorem lookupResolvers_effect {cached : Option CacheEntry} (resolverUrls : List String) :
    ∀ (lastError : Option OatiLookupError) (s : ClientState) (t : LookupPast)
      (r : Except LookupThrown LookupResponse),
      (∀ entry, cached = some entry → (key.cacheKey, entry) ∈ s.entries) →
      Run (lookupResolvers engine client key options cached lastError resolverUrls) t r →
      Serves (ClientServed client) s t s' →
      LookupEffect engine client key options s s' t r := by
  induction resolverUrls with
  | nil =>
    intro lastError s t r _ h hserve
    obtain ⟨rfl, rfl⟩ := run_throw_iff.mp h
    cases hserve
    exact .of_error .nil fun _ _ hmem => .inl hmem
  | cons resolverUrl rest ih =>
    intro lastError s t r hcached h hserve
    rcases run_bind_iff.mp h with ⟨e, hattempt, -⟩ | ⟨outcome, t₁, t₂, rfl, hattempt, hrest⟩
    · obtain ⟨_, -, houtcome⟩ := run_attempt_iff.mp hattempt
      cases houtcome
    · obtain ⟨outcome', hlookup, houtcome⟩ := run_attempt_iff.mp hattempt
      obtain rfl := Except.ok.inj houtcome
      obtain ⟨s₁, hserve₁, hserve₂⟩ := hserve.split
      obtain ⟨heffect, hfailed⟩ := lookupResolver_effect hcached hlookup hserve₁
      split at hrest
      next response =>
        obtain ⟨rfl, rfl⟩ := run_pure_iff.mp hrest
        cases hserve₂
        rwa [List.append_nil]
      next error =>
        obtain ⟨rfl, rfl⟩ := run_throw_iff.mp hrest
        cases hserve₂
        rwa [List.append_nil]
      next error =>
        have hentries := hfailed _ rfl
        split at hrest
        · obtain ⟨rfl, rfl⟩ := run_throw_iff.mp hrest
          cases hserve₂
          rwa [List.append_nil]
        · split at hrest
          · -- a not-found answer is stored, and thrown
            have hstored : ∀ cacheKey entry, (cacheKey, entry) ∈ s'.entries →
                (cacheKey, entry) ∈ s.entries ∨ cacheKey = key.cacheKey ∧ entry.record = none := by
              intro cacheKey entry hmem
              rw [← hentries]
              rcases run_bind_iff.mp hrest with ⟨e, hstore, -⟩ | ⟨_, t₃, t₄, rfl, hstore, hthrow⟩
              · exact storeNotFound_entries hstore hserve₂ hmem
              · obtain ⟨rfl, -⟩ := run_throw_iff.mp hthrow
                rw [List.append_nil] at hserve₂
                exact storeNotFound_entries hstore hserve₂ hmem
            have herror : ∃ e, r = .error e := by
              rcases run_bind_iff.mp hrest with ⟨e, -, rfl⟩ | ⟨_, t₃, t₄, rfl, -, hthrow⟩
              · exact ⟨e, rfl⟩
              · exact ⟨_, (run_throw_iff.mp hthrow).2⟩
            obtain ⟨e, rfl⟩ := herror
            exact .of_error hserve hstored
          · refine (ih (some error) s₁ t₂ r (fun entry h => ?_) hrest hserve₂).after hserve₁ hentries
            rw [hentries]
            exact hcached entry h

/-- What a lookup does when it has read the cache. -/
theorem readCache_effect {read : CacheRead} {r : Except LookupThrown LookupResponse}
    {program : LookupProg LookupResponse}
    (hhit : ∀ entry now, read = .hit entry now → program = match entry.record with
      | none => lookupError cachedNotFound
      | some record => pure { record, resolverUrl := entry.resolverUrl, cache := .hit
                              rateLimit := entry.rateLimit })
    (hmiss : ∀ cached, read = .miss cached →
      program = lookupResolvers engine client key options cached none client.resolverUrls)
    (h : Run program t r)
    (hserve : Serves (ClientServed client) s
      (⟨.readCache key.cacheKey options.cache, .ok read⟩ :: t) s') :
    LookupEffect engine client key options s s'
      (⟨.readCache key.cacheKey options.cache, .ok read⟩ :: t) r := by
  have hresponses := serves_responses hserve
  obtain _ | ⟨hserved, hrest⟩ := hserve
  generalize options.cache = mode at hserved ⊢
  cases hserved with
  | outside hc => cases hc
  | @hit _ entry now hentry hfresh =>
    have hmem := InsertionMap.mem_of_get hentry
    rw [hhit entry now rfl] at h
    split at h
    next hnone =>
      obtain ⟨rfl, rfl⟩ := run_throw_iff.mp h
      cases hrest
      refine ⟨hresponses, fun _ _ hfound => .inl (mem_touch hentry hfound), ?_, ?_⟩
      · exact fun _ hr => by cases hr
      · exact fun _ hr => by cases hr
    next record hrecord =>
      obtain ⟨rfl, rfl⟩ := run_pure_iff.mp h
      cases hrest
      have hkept : Kept s key record := ⟨entry, hmem, hrecord⟩
      refine ⟨hresponses, fun _ _ hfound => .inl (mem_touch hentry hfound), ?_, ?_⟩
      · rintro response hr -
        obtain rfl := Except.ok.inj hr
        exact hkept
      · intro response hr
        obtain rfl := Except.ok.inj hr
        exact .inl hkept
  | miss hstale =>
    rw [hmiss _ rfl] at h
    have heffect := lookupResolvers_effect _ none s _ r
      (fun entry hentry => InsertionMap.mem_of_get hentry) h hrest
    exact heffect.after (.cons (.miss hstale) .nil) rfl

theorem lookup_effect {r : Except LookupThrown LookupResponse}
    (h : Run (lookupSelectedDetailed engine client key options) t r)
    (hserve : Serves (ClientServed client) s t s') :
    LookupEffect engine client key options s s' t r := by
  have hquiet : ∀ {t s'}, Serves (ClientServed client) s t s' → (∀ event ∈ t, ¬ usesCache event.call) →
      ∀ e, LookupEffect engine client key options s s' t (.error e) := by
    intro t s' hserve ht e
    have hentries := serves_entries_eq hserve ht
    exact .of_error hserve fun _ _ hmem => .inl (hentries ▸ hmem)
  rcases run_bind_iff.mp h with ⟨e, hinput, rfl⟩ | ⟨_, t₁, t₂, rfl, hinput, h₁⟩
  · exact hquiet hserve (avoids_ofExcept _ _ _ hinput) e
  obtain ⟨rfl, -⟩ := run_ofExcept_iff.mp hinput
  rw [List.nil_append] at hserve ⊢
  rcases run_bind_iff.mp h₁ with ⟨e, hsignal, rfl⟩ | ⟨aborted, t₃, t₄, rfl, hsignal, h₂⟩
  · exact hquiet hserve (avoids_signalAborted _ _ hsignal) e
  obtain ⟨s₁, hserve₁, hserve₂⟩ := hserve.split
  have hentries := serves_entries_eq hserve₁ (avoids_signalAborted _ _ hsignal)
  refine LookupEffect.after ?_ hserve₁ hentries
  split at h₂
  · obtain ⟨rfl, rfl⟩ := run_throw_iff.mp h₂
    cases hserve₂
    exact .of_error .nil fun _ _ hmem => .inl hmem
  rcases run_bind_iff.mp h₂ with ⟨e, hread, rfl⟩ | ⟨read, t₅, t₆, rfl, hread, h₃⟩
  · obtain rfl := run_perform_iff.mp hread
    obtain _ | ⟨hserved, -⟩ := hserve₂
    obtain ⟨_, hanswer⟩ := hserved.answered
    cases hanswer
  · obtain rfl := run_perform_iff.mp hread
    refine readCache_effect ?_ ?_ h₃ hserve₂
    · rintro entry now rfl
      rfl
    · rintro cached rfl
      rfl

/-! ### Sequences of operations -/

/-- One operation of a sequence: the state it starts in, what its calls were answered, and how it
ended. -/
structure ClientCall where
  operation : ClientOperation
  start : ClientState
  trace : LookupPast
  outcome : Except LookupThrown (Option LookupResponse)

/-- A sequence of operations, each done before the next one starts. -/
inductive ClientCalls (engine : Engine) (client : OatiLookupClient) :
    ClientState → List ClientCall → ClientState → Prop where
  | nil (s : ClientState) : ClientCalls engine client s [] s
  | cons {s s' s'' : ClientState} {c : ClientCall} {cs : List ClientCall} (hstart : c.start = s)
      (hrun : Run (c.operation.program engine client) c.trace c.outcome)
      (hserve : Serves (ClientServed client) s c.trace s')
      (hrest : ClientCalls engine client s' cs s'') : ClientCalls engine client s (c :: cs) s''

/-- The operation is a lookup of the key that may use the cache, and returned the response. -/
def ClientCall.Returns (c : ClientCall) (key : LookupKey) (response : LookupResponse) : Prop :=
  ∃ options, c.operation = .lookup key options ∧ options.cache ≠ .noStore ∧
    c.outcome = .ok (some response)

/-- A record for the key that must not be stored is brought only where no entry has one. -/
def ReplacesOlder (engine : Engine) (client : OatiLookupClient) (key : LookupKey)
    (c : ClientCall) : Prop :=
  ∀ options answer record, c.operation = .lookup key options → options.cache ≠ .noStore →
    Brought engine client key c.trace answer record → isCacheable answer = false →
    ∀ older, ¬ Kept c.start key older

/-- The entries of a key are no older than what was returned for it. -/
structure UpToDate (client : OatiLookupClient) (key : LookupKey) (returned : FetchedRecord → Prop)
    (s : ClientState) : Prop where
  kept : ∀ record, Kept s key record → record.response < s.responses ∧
    ∀ earlier, returned earlier → earlier.response ≤ record.response
  returned : ∀ earlier, returned earlier → earlier.response < s.responses
  uncached : client.cacheOptions = none → ∀ record, ¬ Kept s key record

theorem upToDate_initial : UpToDate client key (fun _ => False) ClientState.initial where
  kept := by
    rintro record ⟨entry, hentry, -⟩
    cases hentry
  returned _ h := h.elim
  uncached := by
    rintro - record ⟨entry, hentry, -⟩
    cases hentry

theorem Kept.unique {record other : FetchedRecord} (h : Kept s key record)
    (h' : Kept s key other) : record = other := by
  obtain ⟨entry, hentry, hrecord⟩ := h
  obtain ⟨entry', hentry', hrecord'⟩ := h'
  obtain rfl := InsertionMap.mem_unique hentry hentry'
  exact Option.some.inj (hrecord.symm.trans hrecord')

/-- An operation that returns no record for the key, and stores none. -/
theorem UpToDate.of_kept {returned : FetchedRecord → Prop} (hs : UpToDate client key returned s)
    (hresponses : s.responses ≤ s'.responses)
    (hkept : ∀ record, Kept s' key record → Kept s key record) :
    UpToDate client key returned s' where
  kept record h := by
    obtain ⟨hnumber, hlatest⟩ := hs.kept record (hkept record h)
    exact ⟨hnumber.trans_le hresponses, hlatest⟩
  returned earlier h := (hs.returned earlier h).trans_le hresponses
  uncached hcache record h := hs.uncached hcache record (hkept record h)

/-- What is kept after a lookup of the key was kept before, or was returned. -/
theorem LookupEffect.kept {r : Except LookupThrown LookupResponse} {record : FetchedRecord}
    (h : LookupEffect engine client key options s s' t r) (hkept : Kept s' key record) :
    Kept s key record ∨ ∃ response, r = .ok response ∧ response.record = record := by
  obtain ⟨entry, hentry, hrecord⟩ := hkept
  obtain hold | ⟨-, hnew⟩ := h.entries _ _ hentry
  · exact .inl ⟨entry, hold, hrecord⟩
  · exact .inr (hnew record hrecord)

/-- A lookup of the key keeps the entries up to date with what it returns. -/
theorem UpToDate.lookup {returned : FetchedRecord → Prop} {r : Except LookupThrown LookupResponse}
    (hs : UpToDate client key returned s)
    (hserve : Serves (ClientServed client) s t s')
    (h : LookupEffect engine client key options s s' t r)
    (hreplace : ∀ answer record, options.cache ≠ .noStore →
      Brought engine client key t answer record → isCacheable answer = false →
      ∀ older, ¬ Kept s key older) :
    UpToDate client key (fun record => returned record ∨ options.cache ≠ .noStore ∧
      ∃ response, r = .ok response ∧ response.record = record) s' := by
  have hreturned : ∀ response, r = .ok response → response.record.response < s'.responses ∧
      ∀ earlier, returned earlier → earlier.response ≤ response.record.response := by
    intro response hr
    obtain hkept | ⟨answer, hbrought, hlow, hhigh, -⟩ := h.record response hr
    · obtain ⟨hnumber, hlatest⟩ := hs.kept _ hkept
      exact ⟨hnumber.trans_le h.responses, hlatest⟩
    · rw [hbrought.number]
      exact ⟨hhigh, fun earlier he => ((hs.returned earlier he).trans_le hlow).le⟩
  refine ⟨fun record hkept => ?_, ?_, fun hcache record hkept => ?_⟩
  · have hkept' := h.kept hkept
    constructor
    · obtain hold | ⟨response, hr, rfl⟩ := hkept'
      · exact (hs.kept record hold).1.trans_le h.responses
      · exact (hreturned response hr).1
    · rintro earlier (hearlier | ⟨hmode, response, hr, rfl⟩)
      · obtain hold | ⟨response, hr, rfl⟩ := hkept'
        · exact (hs.kept record hold).2 earlier hearlier
        · exact (hreturned response hr).2 earlier hearlier
      · -- what the lookup returns is what is kept after it
        suffices hsame : response.record = record by rw [hsame]
        obtain hold | ⟨response', hr', hrecord⟩ := hkept'
        · obtain hkept₀ | ⟨answer, hbrought, -, -, hstored⟩ := h.record response hr
          · exact hkept₀.unique hold
          · cases hcacheable : isCacheable answer with
            | false => exact absurd hold (hreplace answer _ hmode hbrought hcacheable record)
            | true =>
              have hcache : client.cacheOptions ≠ none := fun hnone => hs.uncached hnone _ hold
              obtain ⟨entry, hentry, hrecord⟩ := hkept
              have hnew := hstored hmode hcacheable hcache entry hentry
              exact Option.some.inj (hnew.symm.trans hrecord)
        · obtain rfl := Except.ok.inj (hr.symm.trans hr')
          exact hrecord
  · rintro earlier (hearlier | ⟨-, response, hr, rfl⟩)
    · exact (hs.returned earlier hearlier).trans_le h.responses
    · exact (hreturned response hr).1
  · obtain ⟨entry, hentry, hrecord⟩ := hkept
    exact hs.uncached hcache record ⟨entry, serves_uncached hcache hserve hentry, hrecord⟩

/-- What a clear leaves was there. -/
theorem serves_clear {selection : CacheClear} {answer : Except LookupThrown Unit}
    (h : Serves (ClientServed client) s [⟨.clear selection, answer⟩] s')
    {entry : String × CacheEntry} (hmem : entry ∈ s'.entries) : entry ∈ s.entries := by
  obtain _ | ⟨hserve, hrest⟩ := h
  cases hrest
  cases hserve with
  | clear => exact (InsertionMap.mem_keep.mp hmem).1
  | outside hc => cases hc

/-- The run of a lookup, with its result. -/
theorem run_lookup {outcome : Except LookupThrown (Option LookupResponse)}
    (h : Run ((ClientOperation.lookup key options).program engine client) t outcome) :
    ∃ r, Run (lookupSelectedDetailed engine client key options) t r ∧ outcome = r.map some := by
  rcases run_bind_iff.mp h with ⟨e, hrun, rfl⟩ | ⟨response, t₁, t₂, rfl, hrun, hpure⟩
  · exact ⟨.error e, hrun, rfl⟩
  · obtain ⟨rfl, rfl⟩ := run_pure_iff.mp hpure
    rw [List.append_nil]
    exact ⟨.ok response, hrun, rfl⟩

theorem ClientCall.returns_iff {c : ClientCall} {r : Except LookupThrown LookupResponse}
    (hoperation : c.operation = .lookup key options) (houtcome : c.outcome = r.map some)
    {response : LookupResponse} :
    c.Returns key response ↔ options.cache ≠ .noStore ∧ r = .ok response := by
  constructor
  · rintro ⟨options', hlookup, hmode, hreturned⟩
    obtain ⟨-, rfl⟩ := ClientOperation.lookup.inj (hoperation.symm.trans hlookup)
    rw [houtcome] at hreturned
    cases r with
    | error e => cases hreturned
    | ok found =>
      obtain rfl := Option.some.inj (Except.ok.inj hreturned)
      exact ⟨hmode, rfl⟩
  · rintro ⟨hmode, rfl⟩
    exact ⟨options, hoperation, hmode, houtcome⟩

/-- One operation keeps the entries of the key up to date, and its hit is one of them. -/
theorem UpToDate.step {returned : FetchedRecord → Prop} {c : ClientCall}
    (hs : UpToDate client key returned s) (hstart : c.start = s)
    (hrun : Run (c.operation.program engine client) c.trace c.outcome)
    (hserve : Serves (ClientServed client) s c.trace s')
    (hreplace : ReplacesOlder engine client key c) :
    UpToDate client key (fun record => returned record ∨
        ∃ response, c.Returns key response ∧ response.record = record) s' ∧
      ∀ response, c.Returns key response → response.cache = .hit →
        Kept s key response.record := by
  have hother : (∀ options, c.operation ≠ .lookup key options) →
      (∀ record, Kept s' key record → Kept s key record) →
      UpToDate client key (fun record => returned record ∨
        ∃ response, c.Returns key response ∧ response.record = record) s' ∧
      ∀ response, c.Returns key response → response.cache = .hit →
        Kept s key response.record := by
    intro hoperation hkept
    have hnone : ∀ response, ¬ c.Returns key response :=
      fun response ⟨options, hlookup, _⟩ => hoperation options hlookup
    have hnext := hs.of_kept (serves_responses hserve) hkept
    refine ⟨⟨fun record h => ?_, ?_, hnext.uncached⟩, fun response h => absurd h (hnone response)⟩
    · refine ⟨(hnext.kept record h).1, ?_⟩
      rintro earlier (hearlier | ⟨response, hresponse, -⟩)
      · exact (hnext.kept record h).2 earlier hearlier
      · exact absurd hresponse (hnone response)
    · rintro earlier (hearlier | ⟨response, hresponse, -⟩)
      · exact hnext.returned earlier hearlier
      · exact absurd hresponse (hnone response)
  cases hoperation : c.operation with
  | clear selection =>
    refine hother (fun options h => by rw [hoperation] at h; cases h) ?_
    rintro record ⟨entry, hentry, hrecord⟩
    refine ⟨entry, ?_, hrecord⟩
    rw [hoperation] at hrun
    rcases run_bind_iff.mp hrun with ⟨e, hclear, -⟩ | ⟨_, t₁, t₂, htrace, hclear, hpure⟩
    · rw [run_perform_iff.mp hclear] at hserve
      exact serves_clear hserve hentry
    · obtain ⟨rfl, -⟩ := run_pure_iff.mp hpure
      rw [htrace, List.append_nil, run_perform_iff.mp hclear] at hserve
      exact serves_clear hserve hentry
  | lookup other options =>
    rw [hoperation] at hrun
    obtain ⟨r, hlookup, houtcome⟩ := run_lookup hrun
    have heffect := lookup_effect hlookup hserve
    by_cases hkey : other = key
    · subst hkey
      have hreturns : ∀ response, c.Returns other response ↔
          options.cache ≠ .noStore ∧ r = .ok response :=
        fun _ => ClientCall.returns_iff hoperation houtcome
      have hnext := hs.lookup hserve heffect fun answer record hmode hbrought hcacheable =>
        hstart ▸ hreplace options answer record hoperation hmode hbrought hcacheable
      refine ⟨?_, fun response hresponse hhit => ?_⟩
      · have hsame : (fun record => returned record ∨
            ∃ response, c.Returns other response ∧ response.record = record) =
            fun record => returned record ∨ options.cache ≠ .noStore ∧
              ∃ response, r = .ok response ∧ response.record = record := by
          funext record
          simp only [hreturns, and_assoc, exists_and_left]
        rw [hsame]
        exact hnext
      · exact heffect.hit response ((hreturns response).mp hresponse).2 hhit
    · refine hother (fun options' h => ?_) ?_
      · rw [hoperation] at h
        exact hkey (ClientOperation.lookup.inj h).1
      · rintro record ⟨entry, hentry, hrecord⟩
        obtain hold | ⟨hsame, -⟩ := heffect.entries _ _ hentry
        · exact ⟨entry, hold, hrecord⟩
        · exact absurd (cacheKey_injective hsame).symm hkey

/-- If a record that must not be stored replaces no older one, no hit is older than what was
returned before it. The induction is on the operations. -/
theorem UpToDate.calls {returned : FetchedRecord → Prop} {cs : List ClientCall}
    (hs : UpToDate client key returned s) (h : ClientCalls engine client s cs s')
    (hreplace : ∀ c ∈ cs, ReplacesOlder engine client key c) :
    (∀ c ∈ cs, ∀ response earlier, c.Returns key response → response.cache = .hit →
      returned earlier → earlier.response ≤ response.record.response) ∧
    cs.Pairwise fun before after => ∀ response response', before.Returns key response →
      after.Returns key response' → response'.cache = .hit →
      response.record.response ≤ response'.record.response := by
  induction h generalizing returned with
  | nil => exact ⟨fun _ h => (by cases h), .nil⟩
  | @cons s s' s'' c cs hstart hrun hserve _ ih =>
    obtain ⟨hc, hcs⟩ := List.forall_mem_cons.mp hreplace
    obtain ⟨hnext, hkept⟩ := hs.step hstart hrun hserve hc
    obtain ⟨hlater, hpairs⟩ := ih hnext hcs
    refine ⟨List.forall_mem_cons.mpr ⟨fun response earlier hresponse hhit hearlier => ?_,
      fun c' hc' response earlier hresponse hhit hearlier => ?_⟩, List.pairwise_cons.mpr
        ⟨fun c' hc' response response' hresponse hresponse' hhit => ?_, hpairs⟩⟩
    · exact (hs.kept _ (hkept response hresponse hhit)).2 earlier hearlier
    · exact hlater c' hc' response earlier hresponse hhit (.inl hearlier)
    · exact hlater c' hc' response' _ hresponse' hhit (.inr ⟨response, hresponse, rfl⟩)

/-- No hit is older than a record that was returned before it. -/
theorem hit_not_older {cs : List ClientCall}
    (h : ClientCalls engine client ClientState.initial cs s)
    (hreplace : ∀ c ∈ cs, ReplacesOlder engine client key c) :
    cs.Pairwise fun before after => ∀ response response', before.Returns key response →
      after.Returns key response' → response'.cache = .hit →
      response.record.response ≤ response'.record.response :=
  (upToDate_initial.calls h hreplace).2

/-! ### Runs with one response -/

theorem run_requestWithRetry_ok {resolverUrl : String} {cached : Option CacheEntry}
    {requested : RequestedRecord} (htimeout : options.timeoutMs = none)
    (h : Run (fetchRecord engine client resolverUrl key cached) t (.ok requested)) :
    Run (requestWithRetry engine client resolverUrl key options cached) t (.ok requested) := by
  have honce : Run (requestOnce engine client resolverUrl key options cached) t
      (.ok requested) := by
    have hlimit : requestTimeout client options = .ok client.timeoutMs := by
      rw [requestTimeout, htimeout]
    refine Run.bind (t := []) (run_ofExcept_iff.mpr ⟨rfl, hlimit.symm⟩) ?_
    rw [← List.append_nil t]
    exact h.attempt.bind (run_pure_iff.mpr ⟨rfl, rfl⟩)
  unfold requestWithRetry
  cases client.retries.maxRetries with
  | zero => exact honce
  | succ left =>
    rw [← List.append_nil t]
    exact honce.attempt.bind (run_pure_iff.mpr ⟨rfl, rfl⟩)

/-- A response with the record that was asked for. -/
theorem run_fetchRecord {resolverUrl : String} {cached : Option CacheEntry}
    {response : ResolverResponse} {stream : BodyStream} {payload : Option Value}
    {record : FetchedRecord} {rateLimit : RateLimitInfo} {expiresAt : Option ℚ}
    (hstatus : 200 ≤ response.status ∧ response.status ≤ 299)
    (hrate : Run (rateLimitInfo engine response) [] (.ok rateLimit))
    (hsize : declaredTooLarge engine response client.maxResponseBytes = false)
    (hpayload : collectPayload engine response client.maxResponseBytes stream = .ok payload)
    (haccept : acceptRecord engine key response payload = some record)
    (hexpiry : Run (expiry engine response client.cacheOptions) t (.ok expiresAt)) :
    Run (fetchRecord engine client resolverUrl key cached)
      (⟨.fetch ⟨resolverUrl, key, nonEmpty (cached.bind CacheEntry.etag)⟩, .ok (some response)⟩ ::
        ⟨.readBody, .ok (some stream)⟩ :: t)
      (.ok { record, expiresAt, etag := response.headers.get "ETag", rateLimit
             revalidated := false, cacheable := isCacheable response }) := by
  have hread : Run (readPayload engine response client.maxResponseBytes)
      [⟨.readBody, .ok (some stream)⟩] (.ok payload) := by
    rw [readPayload, hsize, if_neg Bool.false_ne_true]
    exact (run_perform (A := LookupAnswer) .readBody (.ok (some stream))).bind
      (run_ofExcept_iff.mpr ⟨rfl, hpayload.symm⟩)
  have hhandle : Run (handleResponse engine client key cached response)
      (⟨.readBody, .ok (some stream)⟩ :: t)
      (.ok { record, expiresAt, etag := response.headers.get "ETag", rateLimit
             revalidated := false, cacheable := isCacheable response }) := by
    refine Run.bind (t := []) hrate ?_
    have hnew : (if response.status = 304 then
        cached.bind fun entry => entry.record.map (entry, ·) else none) = none :=
      if_neg (by omega)
    simp only [hnew]
    refine Run.bind hread ?_
    rw [if_neg (by omega), haccept, ← List.append_nil t]
    exact hexpiry.bind (run_pure_iff.mpr ⟨rfl, rfl⟩)
  exact (run_perform (A := LookupAnswer) (.fetch ⟨resolverUrl, key, _⟩) (.ok (some response))).bind
    hhandle

/-- What `lookupResolver` stores. -/
def RequestedRecord.entry (requested : RequestedRecord) (resolverUrl : String) : CacheEntry where
  record := some requested.record
  expiresAt := requested.expiresAt
  etag := nonEmpty requested.etag
  resolverUrl := resolverUrl
  rateLimit := requested.rateLimit

/-- What `lookupResolver` returns of a record that was not revalidated. -/
def RequestedRecord.response (requested : RequestedRecord) (resolverUrl : String) :
    LookupResponse where
  record := requested.record
  resolverUrl := resolverUrl
  cache := .miss
  rateLimit := requested.rateLimit

/-- A lookup whose first resolver has a new record: it is stored, if it may be. -/
theorem run_lookup_new {resolverUrl : String} {rest : List String} {cached : Option CacheEntry}
    {requested : RequestedRecord} (hinput : validateInput key.value = .ok ())
    (hsignal : options.hasSignal = false) (htimeout : options.timeoutMs = none)
    (hmode : options.cache ≠ .noStore) (hresolvers : client.resolverUrls = resolverUrl :: rest)
    (hnew : requested.revalidated = false)
    (h : Run (fetchRecord engine client resolverUrl key
      (cached.filter fun entry => entry.resolverUrl == resolverUrl)) t (.ok requested)) :
    Run ((ClientOperation.lookup key options).program engine client)
      (⟨.readCache key.cacheKey options.cache, .ok (.miss cached)⟩ ::
        (t ++ if requested.cacheable then
          [⟨.store key.cacheKey (requested.entry resolverUrl), .ok ()⟩] else []))
      (.ok (some (requested.response resolverUrl))) := by
  have hresolver : Run (lookupResolver engine client key options cached resolverUrl)
      (t ++ if requested.cacheable then
        [⟨.store key.cacheKey (requested.entry resolverUrl), .ok ()⟩] else [])
      (.ok (requested.response resolverUrl)) := by
    unfold lookupResolver
    simp only [if_neg hmode]
    refine (run_requestWithRetry_ok htimeout h).bind ?_
    simp only [hnew]
    by_cases hcacheable : requested.cacheable = true
    · rw [if_pos hcacheable, if_pos ⟨hmode, hcacheable⟩]
      exact (run_perform (A := LookupAnswer) (.store _ _) (.ok ())).bind
        (run_pure_iff.mpr ⟨rfl, rfl⟩)
    · rw [if_neg hcacheable, if_neg fun hboth => hcacheable hboth.2]
      exact run_pure_iff.mpr ⟨rfl, rfl⟩
  have hsignalled : Run (signalAborted options) [] (.ok false) := by
    rw [signalAborted, hsignal, if_neg Bool.false_ne_true]
    exact run_pure_iff.mpr ⟨rfl, rfl⟩
  generalize (t ++ if requested.cacheable then
    [⟨LookupCall.store key.cacheKey (requested.entry resolverUrl), .ok ()⟩] else []) = u at hresolver ⊢
  have hlookup : Run (lookupSelectedDetailed engine client key options)
      (⟨.readCache key.cacheKey options.cache, .ok (.miss cached)⟩ :: u)
      (.ok (requested.response resolverUrl)) := by
    refine Run.bind (t := []) (run_ofExcept_iff.mpr ⟨rfl, hinput.symm⟩) ?_
    refine Run.bind (t := []) hsignalled ?_
    refine (run_perform (A := LookupAnswer) (.readCache key.cacheKey options.cache)
      (.ok (.miss cached))).bind ?_
    rw [hresolvers, ← List.append_nil u]
    exact hresolver.attempt.bind (run_pure_iff.mpr ⟨rfl, rfl⟩)
  rw [← List.append_nil (_ :: u)]
  exact hlookup.bind (run_pure_iff.mpr ⟨rfl, rfl⟩)

/-- A lookup that finds a fresh entry with a record. -/
theorem run_lookup_hit {entry : CacheEntry} {record : FetchedRecord} {now : ℤ}
    (hinput : validateInput key.value = .ok ()) (hsignal : options.hasSignal = false)
    (hrecord : entry.record = some record) :
    Run ((ClientOperation.lookup key options).program engine client)
      [⟨.readCache key.cacheKey options.cache, .ok (.hit entry now)⟩]
      (.ok (some { record, resolverUrl := entry.resolverUrl, cache := .hit
                   rateLimit := entry.rateLimit })) := by
  have hsignalled : Run (signalAborted options) [] (.ok false) := by
    rw [signalAborted, hsignal, if_neg Bool.false_ne_true]
    exact run_pure_iff.mpr ⟨rfl, rfl⟩
  have hlookup : Run (lookupSelectedDetailed engine client key options)
      [⟨.readCache key.cacheKey options.cache, .ok (.hit entry now)⟩]
      (.ok { record, resolverUrl := entry.resolverUrl, cache := .hit
             rateLimit := entry.rateLimit }) := by
    refine Run.bind (t := []) (run_ofExcept_iff.mpr ⟨rfl, hinput.symm⟩) ?_
    refine Run.bind (t := []) hsignalled ?_
    refine (run_perform (A := LookupAnswer) (.readCache key.cacheKey options.cache)
      (.ok (.hit entry now))).bind ?_
    simp only [hrecord]
    exact run_pure_iff.mpr ⟨rfl, rfl⟩
  rw [← List.append_nil [_]]
  exact hlookup.bind (run_pure_iff.mpr ⟨rfl, rfl⟩)

/-! ### A revoked mandate -/

/-- The revocation of a mandate, looked up by its target. -/
def revocationKey : LookupKey := ⟨.revocation, .target, "oati:mandate:1"⟩

/-- The record of the revocation, with a status. -/
def revocationRecord (status : String) : Record :=
  [("type", .str "revocation"), ("id", .str "oati:revocation:1"), ("status", .str "active"),
    ("issuer", .str "oati:org:acme"), ("proof_status", .str "verified"),
    ("public_attributes",
      .obj [("target", .str "oati:mandate:1"), ("revocation_status", .str status)])]

/-- The bytes of the record. -/
def revocationBody (status : String) : BodyStream :=
  ⟨[encodeText (stringify plainEngine (.obj (revocationRecord status)))], false⟩

/-- The first answer of the resolver, that may be stored, and one that must not be. -/
def freshGoodAnswer : ResolverResponse := ⟨200, [], 0⟩
def revokedAnswer : ResolverResponse := ⟨200, [("cache-control", "no-store")], 1⟩

theorem length_revocationBody {status : String} (h : status ∈ ["good", "revoked"]) :
    (encodeText (stringify plainEngine (.obj (revocationRecord status)))).length ≤ 2097152 := by
  rw [encodeText, stringify, String.toList_ofList]
  simp only [List.mem_cons, List.not_mem_nil, or_false] at h
  rcases h with rfl | rfl <;> decide +kernel

theorem collectPayload_revocation {response : ResolverResponse} {status : String}
    (hstatus : status ∈ ["good", "revoked"]) :
    collectPayload plainEngine response 2097152 (revocationBody status)
      = .ok (some (.obj (revocationRecord status))) := by
  have hfields : ["type", "id", "status", "issuer", "proof_status", "public_attributes"].Nodup := by
    decide
  have hattributes : ["target", "revocation_status"].Nodup := by decide
  have hdistinct : (Json.obj (revocationRecord status) : Value).Distinct :=
    ⟨hfields, trivial, trivial, trivial, trivial, trivial,
      ⟨hattributes, trivial, trivial, trivial⟩, trivial⟩
  have hnumbers : PrintsNumbers plainEngine (.obj (revocationRecord status)) := by
    intro q hq
    cases hq
  have hparse := jsonParse_stringify_of_numbers hdistinct hnumbers
  have htext := decodeText_encodeText_stringify hnumbers
  obtain ⟨c, cs, hcs, -⟩ := stringify_head hnumbers
  have hbytes : (revocationBody status).chunks.flatten
      = encodeText (stringify plainEngine (.obj (revocationRecord status))) :=
    List.append_nil _
  have hfatal : decodeFatal (encodeText (stringify plainEngine (.obj (revocationRecord status))))
      = some (c :: cs) := by
    rw [decodeFatal, htext, if_pos (by rw [encodeText, Utf8.decode_encode]), hcs]
  rw [hcs] at hparse
  rw [collectPayload, hbytes, if_neg (not_lt.mpr (length_revocationBody hstatus)),
    if_neg (fun h => Bool.noConfusion h), parsePayload, hfatal]
  simp only [hparse]
  rfl

theorem acceptRecord_revocation {response : ResolverResponse} {status : String}
    (hvalid : validPublicRecord plainEngine (revocationRecord status)
      [("target", .str "oati:mandate:1"), ("revocation_status", .str status)] = true)
    (hselected : selectorMatches revocationKey (revocationRecord status) = true) :
    acceptRecord plainEngine revocationKey response (some (.obj (revocationRecord status)))
      = some ⟨revocationRecord status, response.number⟩ := by
  have hpublic : isPublicRecord plainEngine (some (.obj (revocationRecord status)))
      = some (revocationRecord status) := if_pos (e := none) hvalid
  have htype : hasType (revocationRecord status) revocationKey.type = true := rfl
  have hkey : hasType (revocationRecord status) .key = false := rfl
  rw [acceptRecord, hpublic]
  simp only [hselected, htype, Bool.and_true, if_true, normalizePublicRecord, hkey,
    if_neg Bool.false_ne_true]

/-- What the requests return. -/
def requestedGood : RequestedRecord where
  record := ⟨revocationRecord "good", 0⟩
  expiresAt := some (Double.round ((0 : ℤ) + (60000 : ℚ)))
  etag := none
  rateLimit := {}
  revalidated := false
  cacheable := true

def requestedRevoked : RequestedRecord where
  record := ⟨revocationRecord "revoked", 1⟩
  expiresAt := some 0
  etag := none
  rateLimit := {}
  revalidated := false
  cacheable := false

/-- The resolver of the directory. -/
def directoryUrl : String := "https://resolver.example"

theorem run_rateLimitInfo_plain {response : ResolverResponse}
    (h : ∀ name ∈ ["Retry-After", "X-RateLimit-Limit", "X-RateLimit-Remaining",
      "X-RateLimit-Reset"], response.headers.get name = none) :
    Run (rateLimitInfo plainEngine response) [] (.ok {}) := by
  have hretry := h "Retry-After" (by decide)
  have hlimit := h "X-RateLimit-Limit" (by decide)
  have hremaining := h "X-RateLimit-Remaining" (by decide)
  have hreset := h "X-RateLimit-Reset" (by decide)
  unfold rateLimitInfo integerHeader
  rw [hretry, hlimit, hremaining, hreset]
  exact run_pure_iff.mpr ⟨rfl, rfl⟩

theorem run_fetch_good {cached : Option CacheEntry} :
    Run (fetchRecord plainEngine directory directoryUrl revocationKey cached)
      [⟨.fetch ⟨directoryUrl, revocationKey, nonEmpty (cached.bind CacheEntry.etag)⟩,
          .ok (some freshGoodAnswer)⟩,
        ⟨.readBody, .ok (some (revocationBody "good"))⟩, ⟨.now, .ok 0⟩] (.ok requestedGood) := by
  have hexpiry : Run (expiry plainEngine freshGoodAnswer directory.cacheOptions) [⟨.now, .ok 0⟩]
      (.ok requestedGood.expiresAt) :=
    (run_perform (A := LookupAnswer) .now (.ok 0)).bind (run_pure_iff.mpr ⟨rfl, rfl⟩)
  have hpayload := @collectPayload_revocation freshGoodAnswer "good" (by decide)
  have haccept := @acceptRecord_revocation freshGoodAnswer "good" (by decide)
    (by decide)
  exact run_fetchRecord (by decide) (run_rateLimitInfo_plain fun _ _ => rfl) (by decide)
    hpayload haccept hexpiry

theorem run_fetch_revoked {cached : Option CacheEntry} :
    Run (fetchRecord plainEngine directory directoryUrl revocationKey cached)
      [⟨.fetch ⟨directoryUrl, revocationKey, nonEmpty (cached.bind CacheEntry.etag)⟩,
          .ok (some revokedAnswer)⟩,
        ⟨.readBody, .ok (some (revocationBody "revoked"))⟩] (.ok requestedRevoked) := by
  have hnoStore : hasNoStore false (cacheControl revokedAnswer) = true := by decide
  have hexpiry : Run (expiry plainEngine revokedAnswer directory.cacheOptions) [] (.ok (some 0)) := by
    rw [expiry, if_pos hnoStore]
    exact run_pure_iff.mpr ⟨rfl, rfl⟩
  have hpayload := @collectPayload_revocation revokedAnswer "revoked" (by decide)
  have haccept := @acceptRecord_revocation revokedAnswer "revoked" (by decide)
    (by decide)
  have hheaders : ∀ name ∈ ["Retry-After", "X-RateLimit-Limit", "X-RateLimit-Remaining",
      "X-RateLimit-Reset"], revokedAnswer.headers.get name = none := by decide
  have hetag : revokedAnswer.headers.get "ETag" = none := by decide
  have hcacheable : isCacheable revokedAnswer = false := by decide
  have hrequested : requestedRevoked =
      { record := ⟨revocationRecord "revoked", 1⟩, expiresAt := some 0
        etag := revokedAnswer.headers.get "ETag", rateLimit := {}, revalidated := false
        cacheable := isCacheable revokedAnswer } := by
    rw [hetag, hcacheable]
    rfl
  rw [hrequested]
  exact run_fetchRecord (by decide) (run_rateLimitInfo_plain hheaders) (by decide)
    hpayload haccept hexpiry

/-- The entry with the record of status `good`. -/
def freshGoodEntry : CacheEntry := requestedGood.entry directoryUrl

/-- The state after the first lookup. -/
def storedState : ClientState :=
  ⟨storeEntry directory InsertionMap.empty revocationKey.cacheKey freshGoodEntry, 1⟩

/-- The lookup that gets the record of status `good`, one that finds it in the cache, and a forced
one that gets the record of status `revoked`. -/
def firstLookup : ClientCall where
  operation := .lookup revocationKey {}
  start := ClientState.initial
  trace := [⟨.readCache revocationKey.cacheKey .default, .ok (.miss none)⟩,
    ⟨.fetch ⟨directoryUrl, revocationKey, none⟩, .ok (some freshGoodAnswer)⟩,
    ⟨.readBody, .ok (some (revocationBody "good"))⟩, ⟨.now, .ok 0⟩,
    ⟨.store revocationKey.cacheKey freshGoodEntry, .ok ()⟩]
  outcome := .ok (some (requestedGood.response directoryUrl))

def hitLookup (responses : ℕ) : ClientCall where
  operation := .lookup revocationKey {}
  start := { storedState with responses }
  trace := [⟨.readCache revocationKey.cacheKey .default, .ok (.hit freshGoodEntry 1)⟩]
  outcome := .ok (some
    { record := ⟨revocationRecord "good", 0⟩, resolverUrl := directoryUrl, cache := .hit
      rateLimit := {} })

def reloadLookup : ClientCall where
  operation := .lookup revocationKey { cache := .reload }
  start := storedState
  trace := [⟨.readCache revocationKey.cacheKey .reload, .ok (.miss (some freshGoodEntry))⟩,
    ⟨.fetch ⟨directoryUrl, revocationKey, none⟩, .ok (some revokedAnswer)⟩,
    ⟨.readBody, .ok (some (revocationBody "revoked"))⟩]
  outcome := .ok (some (requestedRevoked.response directoryUrl))

theorem validateInput_revocation : validateInput revocationKey.value = .ok () :=
  if_neg (by decide)

theorem ClientCalls.firstLookup {cs : List ClientCall}
    (hrest : ClientCalls plainEngine directory storedState cs s') :
    ClientCalls plainEngine directory ClientState.initial (Oati.TypeScript.firstLookup :: cs) s' := by
  have hserve : Serves (ClientServed directory) ClientState.initial
      Oati.TypeScript.firstLookup.trace storedState := by
    refine .cons (.miss fun _ _ h => (by cases h)) (.cons (.fetch ?_) ?_)
    · intro r hr
      rw [← Option.some.inj hr]
      rfl
    · exact .cons (.outside rfl) (.cons (.outside rfl) (.cons .store .nil))
  have hrun := @run_lookup_new plainEngine directory revocationKey {} _ directoryUrl [] none
    requestedGood validateInput_revocation rfl rfl (by decide) rfl rfl run_fetch_good
  exact .cons rfl hrun hserve hrest

theorem ClientCalls.hitLookup {responses : ℕ} {cs : List ClientCall}
    (hrest : ClientCalls plainEngine directory
      ⟨touch storedState.entries revocationKey.cacheKey freshGoodEntry, responses⟩ cs s') :
    ClientCalls plainEngine directory { storedState with responses }
      (Oati.TypeScript.hitLookup responses :: cs) s' := by
  have hfresh : freshGoodEntry.Fresh 1 := ⟨_, rfl, by decide +kernel⟩
  have hentry : storedState.entries.get revocationKey.cacheKey = some freshGoodEntry := rfl
  have hserve : Serves (ClientServed directory) { storedState with responses }
      (Oati.TypeScript.hitLookup responses).trace
      ⟨touch storedState.entries revocationKey.cacheKey freshGoodEntry, responses⟩ :=
    .cons (.hit hentry hfresh) .nil
  have hrun := @run_lookup_hit plainEngine directory revocationKey {} freshGoodEntry _ 1
    validateInput_revocation rfl rfl
  exact .cons rfl hrun hserve hrest

theorem ClientCalls.reloadLookup {cs : List ClientCall}
    (hrest : ClientCalls plainEngine directory { storedState with responses := 2 } cs s') :
    ClientCalls plainEngine directory storedState (Oati.TypeScript.reloadLookup :: cs) s' := by
  have hserve : Serves (ClientServed directory) storedState Oati.TypeScript.reloadLookup.trace
      { storedState with responses := 2 } := by
    refine .cons (.miss fun h => (by cases h)) (.cons (.fetch ?_) (.cons (.outside rfl) .nil))
    intro r hr
    rw [← Option.some.inj hr]
    rfl
  have hrun := @run_lookup_new plainEngine directory revocationKey { cache := .reload } _
    directoryUrl [] (some freshGoodEntry) requestedRevoked validateInput_revocation rfl rfl (by decide)
    rfl rfl run_fetch_revoked
  exact .cons rfl hrun hserve hrest

/-- Where every response may be stored, nothing older stays. -/
theorem replacesOlder_of_cacheable {c : ClientCall}
    (h : ∀ request answer, Answered c.trace (.fetch request) (.ok (some answer)) →
      isCacheable answer = true) : ReplacesOlder engine client key c := by
  intro options answer record _ _ hbrought hcacheable
  obtain ⟨request, hanswered⟩ := hbrought.answered
  rw [h request answer hanswered] at hcacheable
  cases hcacheable

/-- The record of the first lookup is the one that the second finds. -/
theorem hit_not_older_revocation :
    (requestedGood.response directoryUrl).record.response
      ≤ ((⟨revocationRecord "good", 0⟩ : FetchedRecord)).response := by
  have hcalls : ClientCalls plainEngine directory ClientState.initial
      [firstLookup, hitLookup 1] _ := .firstLookup (.hitLookup (.nil _))
  have hfirst : ReplacesOlder plainEngine directory revocationKey firstLookup := by
    refine replacesOlder_of_cacheable fun request answer hanswered => ?_
    obtain _ | ⟨_, _ | ⟨_, _ | ⟨_, _ | ⟨_, _ | ⟨_, ⟨⟩⟩⟩⟩⟩⟩ := hanswered
    rfl
  have hhit : ReplacesOlder plainEngine directory revocationKey (hitLookup 1) := by
    refine replacesOlder_of_cacheable fun request answer hanswered => ?_
    obtain _ | ⟨_, ⟨⟩⟩ := hanswered
  have hpairs := hit_not_older hcalls
    (List.forall_mem_cons.mpr ⟨hfirst, List.forall_mem_singleton.mpr hhit⟩)
  exact List.pairwise_pair.mp hpairs _ _ ⟨{}, rfl, by decide, rfl⟩ ⟨{}, rfl, by decide, rfl⟩ rfl

/-- A forced lookup that gets a revoked record leaves the older entry in the cache, where the next
one finds it. -/
theorem older_hit_after_reload :
    ∃ (before after : ClientCall) (response response' : LookupResponse) (s : ClientState),
      ClientCalls plainEngine directory ClientState.initial [firstLookup, before, after] s ∧
      before.Returns revocationKey response ∧ after.Returns revocationKey response' ∧
      response'.cache = .hit ∧ response'.record.response < response.record.response := by
  have hcalls : ClientCalls plainEngine directory ClientState.initial
      [firstLookup, reloadLookup, hitLookup 2] _ :=
    .firstLookup (.reloadLookup (.hitLookup (.nil _)))
  exact ⟨reloadLookup, hitLookup 2, _, _, _, hcalls, ⟨{ cache := .reload }, rfl, by decide, rfl⟩,
    ⟨{}, rfl, by decide, rfl⟩, rfl, by decide⟩

end Oati.TypeScript
