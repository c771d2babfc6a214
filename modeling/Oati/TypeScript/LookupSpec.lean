import Oati.Library.Contract
import Oati.TypeScript.Lookup

/-!
# What a lookup stores and returns

A lookup is looked at by itself, whatever its calls are answered with.

* `cacheKey_injective`: no two keys share a cache key.
* `Matches`: the record is one that the key asks for.
* `LookupRule`, `LookupOutcome`: what a lookup may call and return, by the calls it has made.
* `lookup_contract`: it keeps to them.
-/

namespace Oati.TypeScript

open Prog

variable {engine : Engine} {client : OatiLookupClient}

/-- The calls that do not concern the entries of the cache or the resolvers. -/
def isOutside : LookupCall → Bool
  | .readBody | .now | .aborted | .timedOut | .delay _ => true
  | _ => false

/-! ### Keys -/

theorem typeName_noNul (type : OatiRecordType) : '\x00' ∉ type.name.toList := by
  cases type <;> decide

theorem selectorName_noNul (selector : LookupSelector) : '\x00' ∉ selector.name.toList := by
  cases selector <;> decide

/-- What comes before the first NUL. -/
theorem append_nul_inj {xs ys us vs : List Char} (hxs : '\x00' ∉ xs) (hys : '\x00' ∉ ys)
    (h : xs ++ '\x00' :: us = ys ++ '\x00' :: vs) : xs = ys ∧ us = vs := by
  induction xs generalizing ys with
  | nil =>
    cases ys with
    | nil => exact ⟨rfl, (List.cons.inj h).2⟩
    | cons y ys =>
      obtain ⟨hy, -⟩ := List.cons.inj h
      exact absurd (hy ▸ List.mem_cons_self) hys
  | cons x xs ih =>
    cases ys with
    | nil =>
      obtain ⟨hx, -⟩ := List.cons.inj h
      exact absurd (hx ▸ List.mem_cons_self) hxs
    | cons y ys =>
      obtain ⟨rfl, hrest⟩ := List.cons.inj h
      rw [List.mem_cons, not_or] at hxs hys
      obtain ⟨rfl, htail⟩ := ih hxs.2 hys.2 hrest
      exact ⟨rfl, htail⟩

theorem toList_cacheKey (key : LookupKey) : key.cacheKey.toList
    = key.type.name.toList ++ '\x00' :: (key.selector.name.toList ++ '\x00' :: key.value.toList) := by
  simp [LookupKey.cacheKey]

theorem typeName_injective {a b : OatiRecordType} (h : a.name = b.name) : a = b := by
  revert h
  cases a <;> cases b <;> decide

theorem selectorName_injective {a b : LookupSelector} (h : a.name = b.name) : a = b := by
  revert h
  cases a <;> cases b <;> decide

/-- No two keys share a cache key, whatever their values contain. -/
theorem cacheKey_injective : Function.Injective LookupKey.cacheKey := by
  rintro ⟨type, selector, value⟩ ⟨type', selector', value'⟩ h
  have hlist := congrArg String.toList h
  rw [toList_cacheKey, toList_cacheKey] at hlist
  obtain ⟨htype, hrest⟩ := append_nul_inj (typeName_noNul _) (typeName_noNul _) hlist
  obtain ⟨hselector, hvalue⟩ := append_nul_inj (selectorName_noNul _) (selectorName_noNul _) hrest
  obtain rfl := typeName_injective (String.toList_injective htype)
  obtain rfl := selectorName_injective (String.toList_injective hselector)
  obtain rfl := String.toList_injective hvalue
  rfl

/-! ### Records that were asked for -/

/-- The record is of the type and for the value that were asked for. -/
structure Matches (key : LookupKey) (record : Record) : Prop where
  type : record.lookup "type" = some (.str key.type.name)
  selected : match key.selector with
    | .id => record.lookup "id" = some (.str key.value)
    | .target => key.type = .revocation ∧
      get (record.lookup "public_attributes") "target" = some (.str key.value) ∧
      ∃ status ∈ ["good", "suspended", "revoked", "unknown"],
        get (record.lookup "public_attributes") "revocation_status" = some (.str status)

theorem hasType_iff {item : Record} {type : OatiRecordType} :
    hasType item type = true ↔ item.lookup "type" = some (.str type.name) := by
  rw [hasType, strictEq_str_right]

theorem lookup_setSome {record : Record} {field other : String} (h : other ≠ field)
    (value : Option Value) : (setSome record field value).lookup other = record.lookup other := by
  cases value with
  | none => rfl
  | some v => exact lookup_setMember_of_ne h v

/-- Only the two dates of a key change. -/
theorem lookup_normalizePublicRecord (record : Record) {field : String} (hissued : field ≠ "issued_at")
    (hexpires : field ≠ "expires_at") :
    (normalizePublicRecord record).lookup field = record.lookup field := by
  unfold normalizePublicRecord
  split_ifs
  · rw [lookup_setSome hexpires, lookup_setSome hissued]
  · rfl

theorem acceptRecord_eq_some {key : LookupKey} {response : ResolverResponse}
    {payload : Option Value} {record : FetchedRecord}
    (h : acceptRecord engine key response payload = some record) :
    Matches key record.record ∧ record.response = response.number := by
  unfold acceptRecord at h
  split at h
  next item hitem =>
    split_ifs at h with haccept
    obtain rfl := Option.some.inj h
    rw [Bool.and_eq_true_iff, hasType_iff] at haccept
    refine ⟨⟨?_, ?_⟩, rfl⟩
    · rw [lookup_normalizePublicRecord _ (by decide) (by decide)]
      exact haccept.2
    · have hselected := haccept.1
      unfold selectorMatches at hselected
      rw [lookup_normalizePublicRecord _ (by decide) (by decide),
        lookup_normalizePublicRecord _ (by decide) (by decide)]
      cases hselector : key.selector with
      | id =>
        rw [hselector] at hselected
        exact strictEq_str_right.mp hselected
      | target =>
        rw [hselector] at hselected
        simp only [Bool.and_eq_true_iff, strictEq_str_right, validRevocationStatus, List.any_eq_true,
          hasType_iff] at hselected
        obtain ⟨⟨htype, hvalue⟩, hstatus⟩ := hselected
        refine ⟨?_, hvalue, hstatus⟩
        exact typeName_injective (Json.str.inj (Option.some.inj (haccept.2.symm.trans htype)))
  next => cases h

/-! ### What a lookup stores and returns -/

/-- The calls that a lookup has made. -/
abbrev LookupPast := List (Event LookupAnswer LookupThrown)

/-- Every call is answered. -/
def answered (c : LookupCall) (answer : Except LookupThrown (LookupAnswer c)) : Prop :=
  ∃ a, answer = .ok a

/-- A resolver has responded for the key. -/
def Responded (past : LookupPast) (key : LookupKey) (response : ResolverResponse) : Prop :=
  ∃ request, request.key = key ∧ Answered past (.fetch request) (.ok (some response))

/-- A resolver has answered 404 for the key. -/
def NotFoundFor (past : LookupPast) (key : LookupKey) : Prop :=
  ∃ response, Responded past key response ∧ response.status = 404

/-- A resolver has answered for the key with a success, the response of this number. -/
def Succeeded (past : LookupPast) (key : LookupKey) (number : ℕ) : Prop :=
  ∃ response, Responded past key response ∧ (200 ≤ response.status ∧ response.status ≤ 299) ∧
    response.number = number

/-- The record is the one that was asked for, of a response for the key. -/
def RecordFor (past : LookupPast) (key : LookupKey) (record : FetchedRecord) : Prop :=
  Matches key record.record ∧ Succeeded past key record.response

variable {past t : LookupPast} {key : LookupKey} {options : LookupOptions}

theorem Responded.mono {response : ResolverResponse} (h : Responded past key response)
    (hsub : past ⊆ t) : Responded t key response := by
  obtain ⟨request, hkey, hanswered⟩ := h
  exact ⟨request, hkey, hanswered.mono hsub⟩

theorem NotFoundFor.mono (h : NotFoundFor past key) (hsub : past ⊆ t) : NotFoundFor t key := by
  obtain ⟨response, hresponse, hstatus⟩ := h
  exact ⟨response, hresponse.mono hsub, hstatus⟩

theorem RecordFor.mono {record : FetchedRecord} (h : RecordFor past key record) (hsub : past ⊆ t) :
    RecordFor t key record := by
  obtain ⟨hmatches, response, hresponse, hstatus, hnumber⟩ := h
  exact ⟨hmatches, response, hresponse.mono hsub, hstatus, hnumber⟩

/-- The entry that a lookup has read. -/
def ReadEntry (past : LookupPast) (key : LookupKey) (options : LookupOptions) (entry : CacheEntry) :
    Prop :=
  Answered past (.readCache key.cacheKey options.cache) (.ok (.miss (some entry)))

/-- The record was asked for, or is that of an entry that was read. -/
def RecordSound (past : LookupPast) (key : LookupKey) (options : LookupOptions)
    (record : FetchedRecord) : Prop :=
  RecordFor past key record ∨ ∃ entry, ReadEntry past key options entry ∧
    entry.record = some record

theorem RecordSound.mono {record : FetchedRecord} (h : RecordSound past key options record)
    (hsub : past ⊆ t) : RecordSound t key options record := by
  obtain hfetched | ⟨entry, hentry, hrecord⟩ := h
  · exact .inl (hfetched.mono hsub)
  · exact .inr ⟨entry, hentry.mono hsub, hrecord⟩

/-- The lookup has read the cache and found nothing fresh. -/
def HasMissed (past : LookupPast) (key : LookupKey) (options : LookupOptions) : Prop :=
  ∃ cached, Answered past (.readCache key.cacheKey options.cache) (.ok (.miss cached))

theorem HasMissed.mono (h : HasMissed past key options) (hsub : past ⊆ t) :
    HasMissed t key options := by
  obtain ⟨cached, hcached⟩ := h
  exact ⟨cached, hcached.mono hsub⟩

/-- A lookup fetches once it has read the cache. It stores under its own key, and only what it has
found. It clears nothing. -/
structure LookupRule (key : LookupKey) (options : LookupOptions) (past : LookupPast)
    (c : LookupCall) : Prop where
  reads : ∀ cacheKey mode, c = .readCache cacheKey mode →
    cacheKey = key.cacheKey ∧ mode = options.cache
  fetches : ∀ request, c = .fetch request → request.key = key ∧ HasMissed past key options
  stores : ∀ cacheKey entry, c = .store cacheKey entry →
    options.cache ≠ .noStore ∧ cacheKey = key.cacheKey ∧
      (∀ record, entry.record = some record → RecordSound past key options record) ∧
      (entry.record = none → NotFoundFor past key)

theorem lookupRule_outside {c : LookupCall} (hc : isOutside c = true) :
    LookupRule key options past c := by
  constructor
  · rintro cacheKey mode rfl
    cases hc
  · rintro request rfl
    cases hc
  · rintro cacheKey entry rfl
    cases hc

/-- No result of a resolver. -/
def Incidental {α : Type} (_ : LookupPast) (r : Except LookupThrown α) : Prop :=
  ∀ error, r = .error (.lookup error) → error.cache = none ∧ error.code ≠ .lookupNotFound

/-- What a request returns. -/
def RequestOutcome (key : LookupKey) (cached : Option CacheEntry) (past : LookupPast)
    (r : Except LookupThrown RequestedRecord) : Prop :=
  (∀ requested, r = .ok requested → RecordFor past key requested.record ∨
    ∃ entry, cached = some entry ∧ entry.record = some requested.record) ∧
  ∀ error, r = .error (.lookup error) →
    error.cache = none ∧ (error.code = .lookupNotFound → NotFoundFor past key)

theorem incidental_ok {α : Type} (past : LookupPast) (a : α) : Incidental past (.ok a) :=
  fun _ h => by cases h

/-- An incidental error is an outcome. -/
theorem Incidental.outcome {α : Type} {cached : Option CacheEntry} {e : LookupThrown}
    (h : Incidental past (.error e : Except LookupThrown α)) :
    RequestOutcome key cached past (.error e) := by
  refine ⟨fun _ hok => (by cases hok), fun error herror => ?_⟩
  obtain rfl := Except.error.inj herror
  obtain ⟨hcache, hcode⟩ := h error rfl
  exact ⟨hcache, fun hnotFound => absurd hnotFound hcode⟩

/-! ### Contracts -/

/-- A call that does not concern the shared state. -/
theorem contract_outside_bind {α : Type} {c : LookupCall} (hc : isOutside c = true)
    {f : LookupAnswer c → LookupProg α} {Ψ : LookupPast → Except LookupThrown α → Prop}
    (hf : ∀ a t, past ⊆ t → Contract answered (LookupRule key options) Ψ t (f a)) :
    Contract answered (LookupRule key options) Ψ past (Prog.perform (A := LookupAnswer) c >>= f) := by
  refine contract_perform_bind (lookupRule_outside hc) ?_ ?_
  · intro a _
    exact hf a _ (List.subset_append_left _ _)
  · rintro e ⟨a, ha⟩
    cases ha

theorem contract_retryAfter (value : Option String) :
    Contract answered (LookupRule key options) Incidental past (retryAfter engine value) := by
  unfold retryAfter
  split
  · exact contract_pure (incidental_ok _ _)
  · split
    · exact contract_pure (incidental_ok _ _)
    · exact contract_pure (incidental_ok _ _)
    · exact contract_outside_bind rfl fun _ _ _ => contract_pure (incidental_ok _ _)

theorem contract_rateLimitInfo (response : ResolverResponse) :
    Contract answered (LookupRule key options) Incidental past (rateLimitInfo engine response) := by
  refine Contract.bind (contract_retryAfter _) (fun t retry _ => ?_) (fun _ _ h error he => ?_)
  · split
    · exact contract_pure (incidental_ok _ _)
    · split
      · exact contract_pure (incidental_ok _ _)
      · exact contract_throw fun error herror => by cases herror
  · exact h error (by cases he; rfl)

theorem contract_expiry (response : ResolverResponse) (cache : Option LookupCacheOptions) :
    Contract answered (LookupRule key options) Incidental past (expiry engine response cache) := by
  unfold expiry
  split
  · exact contract_pure (incidental_ok _ _)
  · split
    · exact contract_outside_bind rfl fun _ _ _ => contract_pure (incidental_ok _ _)
    · split
      · exact contract_pure (incidental_ok _ _)
      · exact contract_outside_bind rfl fun _ _ _ => contract_pure (incidental_ok _ _)

theorem incidental_invalidResponse {α : Type} {error : OatiLookupError}
    (hcode : error.code = .lookupInvalidResponse) (hcache : error.cache = none) :
    Incidental past (.error (.lookup error) : Except LookupThrown α) := by
  intro other hother
  obtain rfl := LookupThrown.lookup.inj (Except.error.inj hother)
  exact ⟨hcache, by rw [hcode]; decide⟩

theorem incidental_collectPayload (response : ResolverResponse) (maximum : ℕ) (stream : BodyStream) :
    Incidental past (collectPayload engine response maximum stream) := by
  unfold collectPayload
  split
  · exact incidental_invalidResponse rfl rfl
  · split
    · exact fun _ h => by cases h
    · split
      · exact incidental_ok _ _
      · exact incidental_invalidResponse rfl rfl

theorem contract_readPayload (response : ResolverResponse) (maximum : ℕ) :
    Contract answered (LookupRule key options) Incidental past
      (readPayload engine response maximum) := by
  unfold readPayload
  split
  · exact contract_throw (incidental_invalidResponse rfl rfl)
  · refine contract_outside_bind rfl fun stream _ _ => ?_
    cases stream with
    | none => exact contract_pure (incidental_ok _ _)
    | some stream => exact contract_ofExcept (incidental_collectPayload _ _ _)

/-- What follows something incidental. -/
theorem Contract.incidental_bind {α : Type} {cached : Option CacheEntry} {p : LookupProg α}
    {f : α → LookupProg RequestedRecord}
    (hp : Contract answered (LookupRule key options) Incidental past p)
    (hf : ∀ t a, past ⊆ t →
      Contract answered (LookupRule key options) (RequestOutcome key cached) t (f a)) :
    Contract answered (LookupRule key options) (RequestOutcome key cached) past (p >>= f) := by
  refine Contract.bind hp.keeps_past (fun t a h => hf t a h.1) fun t e h => ?_
  exact Incidental.outcome h.2

theorem contract_lookupError {α : Type} {error : OatiLookupError}
    {Ψ : LookupPast → Except LookupThrown α → Prop} (h : Ψ past (.error (.lookup error))) :
    Contract answered (LookupRule key options) Ψ past (lookupError error) := h

theorem outcome_ok {cached : Option CacheEntry} {requested : RequestedRecord}
    (h : RecordFor past key requested.record ∨
      ∃ entry, cached = some entry ∧ entry.record = some requested.record) :
    RequestOutcome key cached past (.ok requested) := by
  refine ⟨fun other hother => ?_, fun _ herror => (by cases herror)⟩
  obtain rfl := Except.ok.inj hother
  exact h

theorem responseError_cache (response : ResolverResponse) (rateLimit : RateLimitInfo) :
    (responseError response rateLimit).cache = none := by
  unfold responseError
  split_ifs <;> rfl

theorem responseError_notFound {response : ResolverResponse} {rateLimit : RateLimitInfo}
    (h : (responseError response rateLimit).code = .lookupNotFound) : response.status = 404 := by
  unfold responseError at h
  split_ifs at h with _ hstatus
  exact hstatus

theorem outcome_responseError {cached : Option CacheEntry} {response : ResolverResponse}
    (hresponse : Responded past key response) (rateLimit : RateLimitInfo) :
    RequestOutcome key cached past (.error (.lookup (responseError response rateLimit))) := by
  refine ⟨fun _ hok => (by cases hok), fun error herror => ?_⟩
  obtain rfl := LookupThrown.lookup.inj (Except.error.inj herror)
  refine ⟨responseError_cache _ _, fun hcode => ?_⟩
  exact ⟨response, hresponse, responseError_notFound hcode⟩

theorem contract_handleResponse {cached : Option CacheEntry} {response : ResolverResponse}
    (hresponse : Responded past key response) :
    Contract answered (LookupRule key options) (RequestOutcome key cached) past
      (handleResponse engine client key cached response) := by
  unfold handleResponse
  refine Contract.incidental_bind (contract_rateLimitInfo _) fun t rateLimit ht => ?_
  split
  next entry record hrevalidated =>
    refine Contract.incidental_bind (contract_expiry _ _) fun u expiresAt _ => ?_
    refine contract_pure (outcome_ok (.inr ?_))
    split_ifs at hrevalidated
    obtain ⟨entry', hentry, hrecord⟩ := Option.bind_eq_some_iff.mp hrevalidated
    obtain ⟨record', hrecord', hpair⟩ := Option.map_eq_some_iff.mp hrecord
    obtain ⟨rfl, rfl⟩ := Prod.mk.inj hpair
    exact ⟨entry', hentry, hrecord'⟩
  next =>
    refine Contract.incidental_bind (contract_readPayload _ _) fun u payload hu => ?_
    have hstill : Responded u key response := (hresponse.mono ht).mono hu
    split
    next => exact contract_lookupError (outcome_responseError hstill rateLimit)
    next hstatus =>
      rw [not_or, not_lt, not_lt] at hstatus
      split
      next =>
        exact contract_lookupError
          (Incidental.outcome (α := RequestedRecord) (incidental_invalidResponse rfl rfl))
      next record haccept =>
        refine Contract.incidental_bind (contract_expiry _ _) fun v expiresAt hv => ?_
        obtain ⟨hmatches, hnumber⟩ := acceptRecord_eq_some haccept
        exact contract_pure
          (outcome_ok (.inl ⟨hmatches, response, hstill.mono hv, hstatus, hnumber.symm⟩))

/-! ### Requests with retries -/

theorem RequestOutcome.mono {cached : Option CacheEntry} {r : Except LookupThrown RequestedRecord}
    (h : RequestOutcome key cached past r) (hsub : past ⊆ t) : RequestOutcome key cached t r := by
  refine ⟨fun requested hok => ?_, fun error herror => ?_⟩
  · exact (h.1 requested hok).imp_left fun hfetched => hfetched.mono hsub
  · obtain ⟨hcache, hcode⟩ := h.2 error herror
    exact ⟨hcache, fun hnotFound => (hcode hnotFound).mono hsub⟩

theorem outcome_error {cached : Option CacheEntry} {error : OatiLookupError}
    (hcache : error.cache = none) (hcode : error.code ≠ .lookupNotFound) :
    RequestOutcome key cached past (.error (.lookup error)) := by
  refine ⟨fun _ hok => (by cases hok), fun other hother => ?_⟩
  obtain rfl := LookupThrown.lookup.inj (Except.error.inj hother)
  exact ⟨hcache, fun hnotFound => absurd hnotFound hcode⟩

theorem outcome_other {cached : Option CacheEntry} (error : JsError) :
    RequestOutcome key cached past (.error (.other error)) :=
  ⟨fun _ hok => (by cases hok), fun _ herror => (by cases herror)⟩

/-- A response to the fetch is one for the key. -/
theorem contract_fetchRecord {cached : Option CacheEntry} (hmissed : HasMissed past key options)
    (resolverUrl : String) :
    Contract answered (LookupRule key options) (RequestOutcome key cached) past
      (fetchRecord engine client resolverUrl key cached) := by
  unfold fetchRecord
  refine contract_perform_bind ?_ ?_ ?_
  · refine ⟨fun _ _ h => (by cases h), fun request hrequest => ?_, fun _ _ h => (by cases h)⟩
    rw [← LookupCall.fetch.inj hrequest]
    exact ⟨rfl, hmissed⟩
  · intro response _
    cases response with
    | none => exact contract_throw (outcome_other _)
    | some response =>
      have hfetched : Responded (past ++ [⟨.fetch ⟨resolverUrl, key,
          nonEmpty (cached.bind CacheEntry.etag)⟩, .ok (some response)⟩]) key response :=
        ⟨_, rfl, List.mem_append_right _ (List.mem_singleton_self _)⟩
      exact contract_handleResponse hfetched
  · rintro e ⟨a, ha⟩
    cases ha

/-- Whether the signal is aborted decides how to go on. -/
theorem contract_signalAborted_bind {α : Type} {f : Bool → LookupProg α}
    {Ψ : LookupPast → Except LookupThrown α → Prop}
    (hf : ∀ a t, past ⊆ t → Contract answered (LookupRule key options) Ψ t (f a)) :
    Contract answered (LookupRule key options) Ψ past (signalAborted options >>= f) := by
  unfold signalAborted
  split
  · exact contract_outside_bind rfl hf
  · exact hf false past (List.Subset.refl past)

theorem contract_requestFailed {cached : Option CacheEntry} (exceeded unavailable : String) :
    Contract answered (LookupRule key options) (RequestOutcome key cached) past
      (requestFailed options exceeded unavailable) := by
  unfold requestFailed
  refine contract_signalAborted_bind fun aborted t _ => ?_
  split
  · exact contract_lookupError (outcome_error rfl (by decide))
  · refine contract_outside_bind rfl fun timedOut u _ => ?_
    split
    · exact contract_lookupError (outcome_error rfl fun h => (by cases h))
    · exact contract_lookupError (outcome_error rfl fun h => (by cases h))

theorem contract_requestOnce {cached : Option CacheEntry} (hmissed : HasMissed past key options)
    (resolverUrl : String) :
    Contract answered (LookupRule key options) (RequestOutcome key cached) past
      (requestOnce engine client resolverUrl key options cached) := by
  have htimeout : Incidental past (requestTimeout client options) := by
    unfold requestTimeout
    split
    · exact incidental_ok _ _
    · split
      · exact incidental_ok _ _
      · exact fun _ h => by cases h
  refine Contract.incidental_bind (contract_ofExcept htimeout) fun t timeoutMs ht => ?_
  refine Contract.attempt_bind (contract_fetchRecord (hmissed.mono ht) resolverUrl) fun u r hr => ?_
  match r, hr with
  | .ok requested, hr => exact contract_pure hr
  | .error (.lookup error), hr => exact contract_lookupError hr
  | .error (.other error), _ => exact contract_requestFailed _ _

theorem incidental_cancelled {α : Type} :
    Incidental past (.error (.lookup cancelled) : Except LookupThrown α) := by
  intro error herror
  obtain rfl := LookupThrown.lookup.inj (Except.error.inj herror)
  exact ⟨rfl, by decide⟩

theorem contract_delay (ms : ℚ) :
    Contract answered (LookupRule key options) Incidental past (delay ms) := by
  unfold delay
  refine contract_outside_bind rfl fun cut t _ => ?_
  split
  · exact contract_lookupError incidental_cancelled
  · exact contract_pure (incidental_ok _ _)

/-- Every attempt starts after the read of the cache. The induction is on the retries left. -/
theorem contract_retryLoop {cached : Option CacheEntry} {retry : LookupRetryOptions}
    {request : LookupProg RequestedRecord} {base : LookupPast}
    (hrequest : ∀ t, base ⊆ t →
      Contract answered (LookupRule key options) (RequestOutcome key cached) t request)
    (left : ℕ) : ∀ past, base ⊆ past →
      Contract answered (LookupRule key options) (RequestOutcome key cached) past
        (retryLoop retry request left) := by
  induction left with
  | zero => exact hrequest
  | succ left ih =>
    intro past hpast
    refine Contract.attempt_bind (hrequest past hpast).keeps_past fun t r hr => ?_
    obtain ⟨hsub, hr⟩ := hr
    match r, hr with
    | .ok requested, hr => exact contract_pure hr
    | .error (.other error), _ => exact contract_throw (outcome_other _)
    | .error (.lookup error), hr =>
      dsimp only
      split
      · refine Contract.incidental_bind (contract_delay _) fun u _ hu => ?_
        exact ih u (List.Subset.trans hpast (List.Subset.trans hsub hu))
      · exact contract_lookupError hr

theorem contract_requestWithRetry {cached : Option CacheEntry}
    (hmissed : HasMissed past key options) (resolverUrl : String) :
    Contract answered (LookupRule key options) (RequestOutcome key cached) past
      (requestWithRetry engine client resolverUrl key options cached) :=
  contract_retryLoop (fun _ ht => contract_requestOnce (hmissed.mono ht) resolverUrl) _ past
    (List.Subset.refl past)

/-! ### Lookups -/

/-- What the loop over the resolvers returns: no hit of the cache. -/
def ResolverOutcome (key : LookupKey) (options : LookupOptions) (past : LookupPast)
    (r : Except LookupThrown LookupResponse) : Prop :=
  (∀ response, r = .ok response →
    response.cache ≠ .hit ∧ RecordSound past key options response.record) ∧
  ∀ error, r = .error (.lookup error) →
    error.cache = none ∧ (error.code = .lookupNotFound → NotFoundFor past key)

theorem ResolverOutcome.error {error : OatiLookupError} (hcache : error.cache = none)
    (hcode : error.code = .lookupNotFound → NotFoundFor past key) :
    ResolverOutcome key options past (.error (.lookup error)) := by
  refine ⟨fun _ hok => (by cases hok), fun other hother => ?_⟩
  obtain rfl := LookupThrown.lookup.inj (Except.error.inj hother)
  exact ⟨hcache, hcode⟩

/-- What is read is one entry at most, which a request may reuse. -/
theorem RequestOutcome.recordSound {cached reusable : Option CacheEntry}
    {requested : RequestedRecord} (h : RequestOutcome key reusable past (.ok requested))
    (hread : ∀ entry, cached = some entry → ReadEntry past key options entry)
    (hreusable : ∀ entry, reusable = some entry → cached = some entry) :
    RecordSound past key options requested.record := by
  obtain hfetched | ⟨entry, hentry, hrecord⟩ := h.1 requested rfl
  · exact .inl hfetched
  · exact .inr ⟨entry, hread entry (hreusable entry hentry), hrecord⟩

theorem contract_lookupResolver {cached : Option CacheEntry} (hmissed : HasMissed past key options)
    (hread : ∀ entry, cached = some entry → ReadEntry past key options entry)
    (resolverUrl : String) :
    Contract answered (LookupRule key options) (ResolverOutcome key options) past
      (lookupResolver engine client key options cached resolverUrl) := by
  unfold lookupResolver
  refine Contract.bind (contract_requestWithRetry hmissed resolverUrl).keeps_past ?_ ?_
  · rintro t requested ⟨ht, hrequested⟩
    have hsound : RecordSound t key options requested.record := by
      refine hrequested.recordSound (fun entry h => (hread entry h).mono ht) fun entry h => ?_
      split_ifs at h
      exact (Option.filter_eq_some_iff.mp h).1
    have hreturn : ∀ u, t ⊆ u → Contract answered (LookupRule key options)
        (ResolverOutcome key options) u (pure
          { record := requested.record, resolverUrl
            cache := if requested.revalidated then .revalidated else .miss
            rateLimit := requested.rateLimit } : LookupProg LookupResponse) := by
      intro u hu
      refine contract_pure ⟨fun response hok => ?_, fun _ herror => (by cases herror)⟩
      obtain rfl := Except.ok.inj hok
      refine ⟨?_, hsound.mono hu⟩
      dsimp only
      split_ifs <;> decide
    dsimp only
    by_cases hstore : options.cache ≠ .noStore ∧ requested.cacheable = true
    · rw [if_pos hstore]
      refine contract_perform_bind ?_ ?_ ?_
      · refine ⟨fun _ _ h => (by cases h), fun _ h => (by cases h), fun cacheKey entry h => ?_⟩
        obtain ⟨rfl, rfl⟩ := LookupCall.store.inj h
        refine ⟨hstore.1, rfl, fun record hrecord => ?_, fun hnone => (by cases hnone)⟩
        obtain rfl := Option.some.inj hrecord
        exact hsound
      · exact fun _ _ => hreturn _ (List.subset_append_left _ _)
      · rintro e ⟨a, ha⟩
        cases ha
    · rw [if_neg hstore]
      exact hreturn t (List.Subset.refl t)
  · rintro t e ⟨-, he⟩
    refine ⟨fun _ hok => (by cases hok), fun error herror => ?_⟩
    obtain rfl := Except.error.inj herror
    exact he.2 error rfl

theorem contract_storeNotFound_bind {α : Type} {resolverUrl : String} {error : OatiLookupError}
    {f : Unit → LookupProg α} {Ψ : LookupPast → Except LookupThrown α → Prop}
    (hnotFound : NotFoundFor past key)
    (hf : ∀ a t, past ⊆ t → Contract answered (LookupRule key options) Ψ t (f a)) :
    Contract answered (LookupRule key options) Ψ past
      (storeNotFound client key options resolverUrl error >>= f) := by
  have hquiet : Contract answered (LookupRule key options)
      (fun t r => past ⊆ t ∧ ∃ a, r = .ok a) past
      (storeNotFound client key options resolverUrl error) := by
    unfold storeNotFound
    split
    · split
      next hstore =>
        refine contract_outside_bind rfl fun now t ht => contract_perform ?_ ?_
        · refine ⟨fun _ _ h => (by cases h), fun _ h => (by cases h), fun cacheKey entry h => ?_⟩
          obtain ⟨rfl, rfl⟩ := LookupCall.store.inj h
          exact ⟨hstore, rfl, fun _ hrecord => (by cases hrecord), fun _ => hnotFound.mono ht⟩
        · rintro answer ⟨a, rfl⟩
          exact ⟨List.subset_append_of_subset_left _ ht, a, rfl⟩
      · exact contract_pure ⟨List.Subset.refl past, _, rfl⟩
    · exact contract_pure ⟨List.Subset.refl past, _, rfl⟩
  refine hquiet.bind (fun t a h => hf a t h.1) ?_
  rintro t e ⟨-, a, ha⟩
  cases ha

/-- A resolver that cannot be reached leaves the next one to be asked. The induction is on the
resolvers left. -/
theorem contract_lookupResolvers {cached : Option CacheEntry} (resolverUrls : List String) :
    ∀ (lastError : Option OatiLookupError) (past : LookupPast), HasMissed past key options →
      (∀ entry, cached = some entry → ReadEntry past key options entry) →
      (∀ error, lastError = some error → error.cache = none ∧ error.code ≠ .lookupNotFound) →
      Contract answered (LookupRule key options) (ResolverOutcome key options) past
        (lookupResolvers engine client key options cached lastError resolverUrls) := by
  induction resolverUrls with
  | nil =>
    intro lastError past _ _ hlast
    unfold lookupResolvers
    cases lastError with
    | none => exact contract_lookupError (.error rfl fun h => (by cases h))
    | some error =>
      obtain ⟨hcache, hcode⟩ := hlast error rfl
      exact contract_lookupError (.error hcache fun h => absurd h hcode)
  | cons resolverUrl rest ih =>
    intro lastError past hmissed hread _
    unfold lookupResolvers
    refine Contract.attempt_bind (contract_lookupResolver hmissed hread resolverUrl).keeps_past
      fun t r hr => ?_
    obtain ⟨ht, hr⟩ := hr
    match r, hr with
    | .ok response, hr => exact contract_pure hr
    | .error (.other error), _ =>
      exact contract_throw ⟨fun _ hok => (by cases hok), fun _ herror => (by cases herror)⟩
    | .error (.lookup error), hr =>
      obtain ⟨hcache, hcode⟩ := hr.2 error rfl
      dsimp only
      split
      · exact contract_lookupError (.error hcache hcode)
      · split
        next hnotFound =>
          refine contract_storeNotFound_bind (hcode hnotFound) fun _ u hu => ?_
          exact contract_lookupError (.error hcache fun h => (hcode h).mono hu)
        next hfound =>
          refine ih (some error) t (hmissed.mono ht) (fun entry h => (hread entry h).mono ht) ?_
          intro other hother
          obtain rfl := Option.some.inj hother
          exact ⟨hcache, hfound⟩

/-- The entry is a hit of the lookup. -/
def HitEntry (past : LookupPast) (key : LookupKey) (options : LookupOptions) (entry : CacheEntry) :
    Prop :=
  ∃ now, Answered past (.readCache key.cacheKey options.cache) (.ok (.hit entry now))

/-- What a lookup returns: a hit, or what its resolvers have answered. -/
def LookupOutcome (key : LookupKey) (options : LookupOptions) (past : LookupPast)
    (r : Except LookupThrown LookupResponse) : Prop :=
  ResolverOutcome key options past r ∨
    ∃ entry, HitEntry past key options entry ∧
      match entry.record with
      | some record => ∃ response, r = .ok response ∧ response.cache = .hit ∧ response.record = record
      | none => r = .error (.lookup cachedNotFound)

theorem incidental_resolverOutcome {α : Type} {e : LookupThrown}
    (h : Incidental past (.error e : Except LookupThrown α)) :
    ResolverOutcome key options past (.error e) := by
  refine ⟨fun _ hok => (by cases hok), fun error herror => ?_⟩
  obtain rfl := Except.error.inj herror
  obtain ⟨hcache, hcode⟩ := h error rfl
  exact ⟨hcache, fun hnotFound => absurd hnotFound hcode⟩

theorem lookup_contract :
    Contract answered (LookupRule key options) (LookupOutcome key options) []
      (lookupSelectedDetailed engine client key options) := by
  have hinput : Incidental [] (validateInput key.value) := by
    unfold validateInput
    split
    · intro error herror
      obtain rfl := LookupThrown.lookup.inj (Except.error.inj herror)
      exact ⟨rfl, by decide⟩
    · exact incidental_ok _ _
  unfold lookupSelectedDetailed
  refine (contract_ofExcept hinput).bind (fun t _ _ => ?_) fun t e he => ?_
  · refine contract_signalAborted_bind fun aborted u _ => ?_
    split
    · exact contract_lookupError (.inl (incidental_resolverOutcome (α := LookupResponse)
        incidental_cancelled))
    · refine contract_perform_bind ?_ ?_ ?_
      · refine ⟨fun cacheKey mode h => ?_, fun _ h => (by cases h), fun _ _ h => (by cases h)⟩
        obtain ⟨rfl, rfl⟩ := LookupCall.readCache.inj h
        exact ⟨rfl, rfl⟩
      · intro read _
        cases read with
        | hit entry now =>
          have hhit : HitEntry (u ++ [⟨.readCache key.cacheKey options.cache, .ok (.hit entry now)⟩])
              key options entry :=
            ⟨now, List.mem_append_right _ (List.mem_singleton_self _)⟩
          dsimp only
          split
          next hnone =>
            refine contract_lookupError (.inr ⟨entry, hhit, ?_⟩)
            rw [hnone]
          next record hrecord =>
            refine contract_pure (.inr ⟨entry, hhit, ?_⟩)
            rw [hrecord]
            exact ⟨_, rfl, rfl, rfl⟩
        | miss cached =>
          have hread : Answered (u ++ [⟨.readCache key.cacheKey options.cache, .ok (.miss cached)⟩])
              (.readCache key.cacheKey options.cache) (.ok (.miss cached)) :=
            List.mem_append_right _ (List.mem_singleton_self _)
          refine (contract_lookupResolvers _ none _ ⟨cached, hread⟩ ?_ ?_).mono
            fun _ _ h => .inl h
          · rintro entry rfl
            exact hread
          · exact fun _ h => by cases h
      · rintro e ⟨a, ha⟩
        cases ha
  · exact .inl (incidental_resolverOutcome he)

end Oati.TypeScript
