import Oati.Library.Interleaving
import Oati.TypeScript.LookupSpec

/-!
# The cache of a lookup client

The lookups and clears of one client share its cache. They run interleaved: a step is a call of
one of them, and the resolvers, the clock and the signals answer theirs as they like.

* `ClientState`, `ClientServed`: the shared state, and how it answers and changes.
* `Consistent`: the invariant of the cache: an entry has the record its key asks for, or a
  resolver has answered 404 for that key.
* `cache_integrity`: what every run keeps.
-/

namespace Oati.TypeScript

open Prog

variable {engine : Engine} {client : OatiLookupClient}

/-! ### The shared state -/

/-- The cache entries, and how many responses there were. -/
structure ClientState where
  entries : InsertionMap String CacheEntry
  responses : ℕ

def ClientState.initial : ClientState := ⟨InsertionMap.empty, 0⟩

/-- `touch`. -/
def touch (entries : InsertionMap String CacheEntry) (cacheKey : String) (entry : CacheEntry) :
    InsertionMap String CacheEntry := (entries.delete cacheKey).set cacheKey entry

/-- `store`. -/
def storeEntry (client : OatiLookupClient) (entries : InsertionMap String CacheEntry)
    (cacheKey : String) (entry : CacheEntry) : InsertionMap String CacheEntry :=
  match client.cacheOptions with
  | none => entries
  | some cache => ((entries.delete cacheKey).set cacheKey entry).trim cache.maxEntries

/-- The keys that `clearCache` and `clearRevocationTargetCache` delete. -/
def CacheClear.selects (selection : CacheClear) (cacheKey : String) : Bool :=
  match selection with
  | all => true
  | byType type => startsWith cacheKey (type.name ++ "\x00")
  | byId type id => cacheKey == (LookupKey.mk type .id id).cacheKey
  | targets => startsWith cacheKey "revocation\x00target\x00"
  | byTarget target => cacheKey == (LookupKey.mk .revocation .target target).cacheKey

/-- `cached.expiresAt > Date.now()`. -/
def CacheEntry.Fresh (entry : CacheEntry) (now : ℤ) : Prop :=
  ∃ expiresAt, entry.expiresAt = some expiresAt ∧ now < expiresAt

/-- How the calls are answered. A fresh entry is a hit in the default mode, and is touched. -/
inductive ClientServed (client : OatiLookupClient) (s : ClientState) :
    Event LookupAnswer LookupThrown → ClientState → Prop
  | hit {cacheKey : String} {entry : CacheEntry} {now : ℤ}
      (hentry : s.entries.get cacheKey = some entry) (hfresh : entry.Fresh now) :
      ClientServed client s ⟨.readCache cacheKey .default, .ok (.hit entry now)⟩
        { s with entries := touch s.entries cacheKey entry }
  | miss {cacheKey : String} {mode : LookupCacheMode}
      (hstale : mode = .default → ∀ entry, s.entries.get cacheKey = some entry →
        ∃ now, ¬ entry.Fresh now) :
      ClientServed client s ⟨.readCache cacheKey mode, .ok (.miss (s.entries.get cacheKey))⟩ s
  | store {cacheKey : String} {entry : CacheEntry} :
      ClientServed client s ⟨.store cacheKey entry, .ok ()⟩
        { s with entries := storeEntry client s.entries cacheKey entry }
  | clear {selection : CacheClear} :
      ClientServed client s ⟨.clear selection, .ok ()⟩
        { s with entries := s.entries.keep fun cacheKey => !selection.selects cacheKey }
  | fetch {request : LookupRequest} {response : Option ResolverResponse}
      (hnumber : ∀ r, response = some r → r.number = s.responses) :
      ClientServed client s ⟨.fetch request, .ok response⟩ { s with responses := s.responses + 1 }
  | outside {c : LookupCall} {answer : LookupAnswer c} (hc : isOutside c = true) :
      ClientServed client s ⟨c, .ok answer⟩ s

/-- The operations of a client. -/
inductive ClientOperation where
  | lookup (key : LookupKey) (options : LookupOptions)
  | clear (selection : CacheClear)

/-- What an operation does. A lookup returns its response. -/
def ClientOperation.program (engine : Engine) (client : OatiLookupClient) :
    ClientOperation → LookupProg (Option LookupResponse)
  | lookup key options => do
    let response ← lookupSelectedDetailed engine client key options
    pure (some response)
  | clear selection => do
    Prog.perform (A := LookupAnswer) (.clear selection)
    pure none

/-- The runs of a client whose operations are named by processes. -/
abbrev ClientRun (engine : Engine) (client : OatiLookupClient) {P : Type} [DecidableEq P]
    (operations : P → ClientOperation) (history : List (P × Event LookupAnswer LookupThrown))
    (current : P → LookupProg (Option LookupResponse)) (s : ClientState) : Prop :=
  Interleaved (ClientServed client) (fun i => (operations i).program engine client) ClientState.initial
    history current s

variable {P : Type} {history : List (P × Event LookupAnswer LookupThrown)} {s s' : ClientState}

theorem ClientServed.answered {event : Event LookupAnswer LookupThrown} (h : ClientServed client s event s') :
    answered event.call event.answer := by
  cases h <;> exact ⟨_, rfl⟩

/-! ### The invariant -/

/-- A resolver has answered a lookup of the key with 404. -/
def AnsweredNotFound (history : List (P × Event LookupAnswer LookupThrown)) (key : LookupKey) :
    Prop :=
  ∃ i request response, request.key = key ∧
    (i, ⟨.fetch request, .ok (some response)⟩) ∈ history ∧ response.status = 404

/-- The entry is one for the cache key. -/
def SoundEntry (history : List (P × Event LookupAnswer LookupThrown)) (cacheKey : String)
    (entry : CacheEntry) : Prop :=
  ∃ key : LookupKey, cacheKey = key.cacheKey ∧
    (∀ record, entry.record = some record → Matches key record.record) ∧
    (entry.record = none → AnsweredNotFound history key)

/-- The entry that is read of the cache. -/
def CacheRead.entry : CacheRead → Option CacheEntry
  | hit entry _ => some entry
  | miss cached => cached

/-- The entries of the cache, and those that were read of it, are ones for their cache keys. -/
structure Consistent (client : OatiLookupClient)
    (history : List (P × Event LookupAnswer LookupThrown)) (s : ClientState) : Prop where
  entries : ∀ cacheKey entry, (cacheKey, entry) ∈ s.entries → SoundEntry history cacheKey entry
  reads : ∀ i cacheKey mode read entry, (i, ⟨.readCache cacheKey mode, .ok read⟩) ∈ history →
    read.entry = some entry → SoundEntry history cacheKey entry
  bounded : ∀ cache, client.cacheOptions = some cache → s.entries.size ≤ cache.maxEntries

theorem SoundEntry.mono {cacheKey : String} {entry : CacheEntry}
    (h : SoundEntry history cacheKey entry)
    {longer : List (P × Event LookupAnswer LookupThrown)} (hsub : history ⊆ longer) :
    SoundEntry longer cacheKey entry := by
  obtain ⟨key, hkey, hrecord, hnone⟩ := h
  refine ⟨key, hkey, hrecord, fun h => ?_⟩
  obtain ⟨i, request, response, hrequest, hmem, hstatus⟩ := hnone h
  exact ⟨i, request, response, hrequest, hsub hmem, hstatus⟩

/-- The record of a sound entry is one for the key it is read under. -/
theorem SoundEntry.matches {key : LookupKey} {entry : CacheEntry}
    (h : SoundEntry history key.cacheKey entry) {record : FetchedRecord}
    (hrecord : entry.record = some record) : Matches key record.record := by
  obtain ⟨other, hkey, hmatches, -⟩ := h
  obtain rfl := cacheKey_injective hkey
  exact hmatches record hrecord

theorem SoundEntry.notFound {key : LookupKey} {entry : CacheEntry}
    (h : SoundEntry history key.cacheKey entry) (hnone : entry.record = none) :
    AnsweredNotFound history key := by
  obtain ⟨other, hkey, -, hnotFound⟩ := h
  obtain rfl := cacheKey_injective hkey
  exact hnotFound hnone

theorem consistent_initial : Consistent client ([] : List (P × Event LookupAnswer LookupThrown))
    ClientState.initial where
  entries _ _ h := absurd h List.not_mem_nil
  reads _ _ _ _ _ h := absurd h List.not_mem_nil
  bounded _ _ := Nat.zero_le _

/-- A step that stores nothing keeps the invariant, if what it reads is in the cache. -/
theorem Consistent.step (hs : Consistent client history s) {i : P}
    {event : Event LookupAnswer LookupThrown}
    (hentries : ∀ cacheKey entry, (cacheKey, entry) ∈ s'.entries → (cacheKey, entry) ∈ s.entries ∨
      SoundEntry (history ++ [(i, event)]) cacheKey entry)
    (hreads : ∀ cacheKey mode read entry, event = ⟨.readCache cacheKey mode, .ok read⟩ →
      read.entry = some entry → (cacheKey, entry) ∈ s.entries)
    (hbounded : ∀ cache, client.cacheOptions = some cache → s'.entries.size ≤ cache.maxEntries) :
    Consistent client (history ++ [(i, event)]) s' where
  entries cacheKey entry h := by
    obtain hold | hnew := hentries cacheKey entry h
    · exact (hs.entries cacheKey entry hold).mono (List.subset_append_left _ _)
    · exact hnew
  reads j cacheKey mode read entry h hentry := by
    rw [List.mem_append, List.mem_singleton] at h
    obtain hold | hnew := h
    · exact (hs.reads j cacheKey mode read entry hold hentry).mono (List.subset_append_left _ _)
    · have hmem := hreads cacheKey mode read entry (Prod.mk.inj hnew).2.symm hentry
      exact (hs.entries cacheKey entry hmem).mono (List.subset_append_left _ _)
  bounded := hbounded

theorem mem_touch {entries : InsertionMap String CacheEntry} {cacheKey other : String}
    {entry found : CacheEntry} (hentry : entries.get cacheKey = some entry)
    (h : (other, found) ∈ touch entries cacheKey entry) : (other, found) ∈ entries := by
  obtain hnew | hold := InsertionMap.mem_set h
  · rw [hnew]
    exact InsertionMap.mem_of_get hentry
  · exact (InsertionMap.mem_delete.mp hold).1

theorem mem_storeEntry {entries : InsertionMap String CacheEntry} {cacheKey other : String}
    {entry found : CacheEntry} (h : (other, found) ∈ storeEntry client entries cacheKey entry) :
    (other, found) ∈ entries ∨ other = cacheKey ∧ found = entry := by
  unfold storeEntry at h
  split at h
  · exact .inl h
  · obtain hnew | hold := InsertionMap.mem_set (InsertionMap.mem_trim h)
    · exact .inr (Prod.mk.inj hnew)
    · exact .inl (InsertionMap.mem_delete.mp hold).1

theorem size_storeEntry_le {cache : LookupCacheOptions} (hcache : client.cacheOptions = some cache)
    (entries : InsertionMap String CacheEntry) (cacheKey : String) (entry : CacheEntry) :
    (storeEntry client entries cacheKey entry).size ≤ cache.maxEntries := by
  unfold storeEntry
  rw [hcache]
  exact InsertionMap.size_trim_le _ _

/-! ### Operations -/

variable [DecidableEq P] {operations : P → ClientOperation}
  {current : P → LookupProg (Option LookupResponse)}

/-- What an operation may call. -/
def OperationRule (operation : ClientOperation) (past : LookupPast) (c : LookupCall) : Prop :=
  match operation with
  | .lookup key options => LookupRule key options past c
  | .clear selection => c = .clear selection

/-- What an operation may return. -/
def OperationOutcome (operation : ClientOperation) (past : LookupPast)
    (r : Except LookupThrown (Option LookupResponse)) : Prop :=
  match operation with
  | .lookup key options =>
    ∃ outcome, r = outcome.map some ∧ LookupOutcome key options past outcome
  | .clear _ => r = .ok none

theorem operation_contract (operation : ClientOperation) :
    Contract answered (OperationRule operation) (OperationOutcome operation) []
      (operation.program engine client) := by
  cases operation with
  | lookup key options =>
    refine Contract.bind lookup_contract (fun t response h => ?_) fun t e h => ?_
    · exact contract_pure ⟨.ok response, rfl, h⟩
    · exact ⟨.error e, rfl, h⟩
  | clear selection =>
    refine contract_perform_bind rfl (fun _ _ => contract_pure rfl) ?_
    rintro e ⟨a, ha⟩
    cases ha

/-- The calls of an operation follow its rule. -/
theorem ClientRun.next (h : ClientRun engine client operations history current s) {i : P}
    {c : LookupCall} {next : Except LookupThrown (LookupAnswer c) → LookupProg (Option LookupResponse)}
    (hcall : current i = .call c next) : OperationRule (operations i) (own i history) c := by
  have hsteps := h.steps i
  rw [hcall] at hsteps
  exact (operation_contract (operations i)).next hsteps (h.within ClientServed.answered i)

/-- The result of an operation that is done. -/
theorem ClientRun.outcome (h : ClientRun engine client operations history current s) {i : P}
    {r : Except LookupThrown (Option LookupResponse)} (hdone : current i = .done r) :
    OperationOutcome (operations i) (own i history) r := by
  have hsteps := h.steps i
  rw [hdone] at hsteps
  exact (operation_contract (operations i)).result hsteps (h.within ClientServed.answered i)

/-! ### Runs -/

theorem NotFoundFor.answered {i : P} {key : LookupKey} (h : NotFoundFor (own i history) key) :
    AnsweredNotFound history key := by
  obtain ⟨response, ⟨request, hkey, hanswered⟩, hstatus⟩ := h
  exact ⟨i, request, response, hkey, mem_own.mp hanswered, hstatus⟩

/-- A lookup finds records that match its key. -/
theorem Consistent.recordSound (hs : Consistent client history s) {i : P} {key : LookupKey}
    {options : LookupOptions} {record : FetchedRecord}
    (h : RecordSound (own i history) key options record) : Matches key record.record := by
  obtain hfetched | ⟨entry, hentry, hrecord⟩ := h
  · exact hfetched.1
  · have hread : SoundEntry history key.cacheKey entry :=
      hs.reads i _ _ _ entry (mem_own.mp hentry) rfl
    exact hread.matches hrecord

/-- What an operation stores is sound, and a clear stores nothing. -/
theorem soundEntry_of_store (hs : Consistent client history s) {i : P} {cacheKey : String}
    {entry : CacheEntry}
    (hrule : OperationRule (operations i) (own i history) (.store cacheKey entry)) :
    SoundEntry history cacheKey entry := by
  cases hoperation : operations i with
  | clear selection =>
    rw [hoperation] at hrule
    cases hrule
  | lookup key options =>
    rw [hoperation] at hrule
    obtain ⟨-, rfl, hrecord, hnone⟩ := hrule.stores cacheKey entry rfl
    refine ⟨key, rfl, fun record h => ?_, fun h => ?_⟩
    · exact hs.recordSound (hrecord record h)
    · exact (hnone h).answered

/-- The induction is on the steps of the run. -/
theorem ClientRun.consistent (h : ClientRun engine client operations history current s) :
    Consistent client history s := by
  induction h with
  | nil => exact consistent_initial
  | @snoc history current s s' i c next answer hrest hcall hserve ih =>
    have hrule := ClientRun.next hrest hcall
    cases hserve with
    | hit hentry hfresh =>
      refine ih.step (fun _ _ hmem => .inl (mem_touch hentry hmem)) ?_ fun cache hcache => ?_
      · rintro cacheKey mode read entry hevent hread
        cases hevent
        cases hread
        exact InsertionMap.mem_of_get hentry
      · exact (InsertionMap.size_set_delete_le hentry _).trans (ih.bounded cache hcache)
    | miss hstale =>
      refine ih.step (fun _ _ hmem => .inl hmem) ?_ ih.bounded
      rintro cacheKey mode read entry hevent hread
      cases hevent
      exact InsertionMap.mem_of_get hread
    | @store cacheKey entry =>
      have hnew := soundEntry_of_store ih hrule
      refine ih.step (fun other found hmem => ?_) (fun _ _ _ _ hevent => (by cases hevent))
        fun cache hcache => size_storeEntry_le hcache _ _ _
      obtain hold | ⟨rfl, rfl⟩ := mem_storeEntry hmem
      · exact .inl hold
      · exact .inr (hnew.mono (List.subset_append_left _ _))
    | clear =>
      refine ih.step (fun _ _ hmem => .inl (InsertionMap.mem_keep.mp hmem).1)
        (fun _ _ _ _ hevent => (by cases hevent)) fun cache hcache => ?_
      exact (InsertionMap.size_keep_le _ _).trans (ih.bounded cache hcache)
    | fetch hnumber =>
      exact ih.step (fun _ _ hmem => .inl hmem) (fun _ _ _ _ hevent => (by cases hevent)) ih.bounded
    | outside hc =>
      refine ih.step (fun _ _ hmem => .inl hmem) ?_ ih.bounded
      rintro cacheKey mode read entry hevent -
      cases hevent
      cases hc

/-! ### Integrity -/

theorem ClientServed.hit_inv {cacheKey : String} {mode : LookupCacheMode} {entry : CacheEntry} {now : ℤ}
    (h : ClientServed client s ⟨.readCache cacheKey mode, .ok (.hit entry now)⟩ s') :
    s.entries.get cacheKey = some entry ∧ entry.Fresh now := by
  cases h with
  | hit hentry hfresh => exact ⟨hentry, hfresh⟩
  | outside hc => cases hc

/-- The entry was a hit of the process: it was in the cache, and its expiry in the future. -/
def HitOf (engine : Engine) (client : OatiLookupClient) (operations : P → ClientOperation)
    (history : List (P × Event LookupAnswer LookupThrown)) (i : P) (key : LookupKey)
    (options : LookupOptions) (entry : CacheEntry) : Prop :=
  ∃ before after now middle found,
    history = before ++ (i, ⟨.readCache key.cacheKey options.cache, .ok (.hit entry now)⟩) :: after ∧
    ClientRun engine client operations before middle found ∧
    found.entries.get key.cacheKey = some entry ∧ entry.Fresh now

theorem ClientRun.hitOf (h : ClientRun engine client operations history current s) {i : P}
    {key : LookupKey} {options : LookupOptions} {entry : CacheEntry}
    (hhit : HitEntry (own i history) key options entry) :
    HitOf engine client operations history i key options entry := by
  obtain ⟨now, hanswered⟩ := hhit
  obtain ⟨before, after, rfl⟩ := List.append_of_mem (mem_own.mp hanswered)
  obtain ⟨middle, found, found', hbefore, hserve⟩ := h.split
  obtain ⟨hentry, hfresh⟩ := hserve.hit_inv
  exact ⟨before, after, now, middle, found, rfl, hbefore, hentry, hfresh⟩

/-- A hit is sound. -/
theorem Consistent.hit (hs : Consistent client history s) {i : P} {key : LookupKey}
    {options : LookupOptions} {entry : CacheEntry}
    (h : HitEntry (own i history) key options entry) : SoundEntry history key.cacheKey entry := by
  obtain ⟨now, hanswered⟩ := h
  exact hs.reads i _ _ _ entry (mem_own.mp hanswered) rfl

/-- The response of a lookup. -/
theorem ClientRun.response (h : ClientRun engine client operations history current s) {i : P}
    {key : LookupKey} {options : LookupOptions} {response : LookupResponse}
    (hoperation : operations i = .lookup key options)
    (hdone : current i = .done (.ok (some response))) :
    LookupOutcome key options (own i history) (.ok response) := by
  have houtcome := h.outcome hdone
  rw [hoperation] at houtcome
  obtain ⟨outcome, hr, hlookup⟩ := houtcome
  cases outcome with
  | error e => cases hr
  | ok found =>
    obtain rfl := Option.some.inj (Except.ok.inj hr)
    exact hlookup

/-- The error of a lookup. -/
theorem ClientRun.error (h : ClientRun engine client operations history current s) {i : P}
    {key : LookupKey} {options : LookupOptions} {e : LookupThrown}
    (hoperation : operations i = .lookup key options) (hdone : current i = .done (.error e)) :
    LookupOutcome key options (own i history) (.error e) := by
  have houtcome := h.outcome hdone
  rw [hoperation] at houtcome
  obtain ⟨outcome, hr, hlookup⟩ := houtcome
  cases outcome with
  | error e' =>
    obtain rfl := Except.error.inj hr
    exact hlookup
  | ok found => cases hr

theorem cache_integrity (h : ClientRun engine client operations history current s) :
    (∀ i key options response, operations i = .lookup key options →
      current i = .done (.ok (some response)) →
      Matches key response.record.record ∧ (response.cache = .hit →
        ∃ entry, HitOf engine client operations history i key options entry ∧
          entry.record = some response.record)) ∧
    (∀ i key options error, operations i = .lookup key options →
      current i = .done (.error (.lookup error)) →
      (error.cache = some .hit →
        ∃ entry, HitOf engine client operations history i key options entry ∧ entry.record = none) ∧
      (error.code = .lookupNotFound → AnsweredNotFound history key)) ∧
    ∀ cache, client.cacheOptions = some cache → s.entries.size ≤ cache.maxEntries := by
  have hs : Consistent client history s := h.consistent
  refine ⟨fun i key options response hoperation hdone => ?_,
    fun i key options error hoperation hdone => ?_, hs.bounded⟩
  · obtain hasked | ⟨entry, hhit, hentry⟩ := h.response hoperation hdone
    · obtain ⟨hnoHit, hrecord⟩ := hasked.1 response rfl
      exact ⟨hs.recordSound hrecord, fun hcache => absurd hcache hnoHit⟩
    · cases hfound : entry.record with
      | none =>
        rw [hfound] at hentry
        cases hentry
      | some record =>
        rw [hfound] at hentry
        obtain ⟨found, hok, -, rfl⟩ := hentry
        obtain rfl := Except.ok.inj hok
        exact ⟨(hs.hit hhit).matches hfound, fun _ => ⟨entry, h.hitOf hhit, hfound⟩⟩
  · obtain hasked | ⟨entry, hhit, hentry⟩ := h.error hoperation hdone
    · obtain ⟨hcache, hnotFound⟩ := hasked.2 error rfl
      refine ⟨fun hhit => ?_, fun hcode => (hnotFound hcode).answered⟩
      rw [hcache] at hhit
      cases hhit
    · cases hfound : entry.record with
      | some record =>
        rw [hfound] at hentry
        obtain ⟨_, hok, -⟩ := hentry
        cases hok
      | none =>
        rw [hfound] at hentry
        refine ⟨fun _ => ⟨entry, h.hitOf hhit, hfound⟩, fun _ => ?_⟩
        exact (hs.hit hhit).notFound hfound

/-! ### A record that is not found -/

/-- A client with one resolver. -/
def directory : OatiLookupClient where
  resolverUrls := ["https://resolver.example"]
  timeoutMs := 10000
  maxResponseBytes := 2097152
  retries := { maxRetries := 2, baseDelayMs := 200, maxDelayMs := 5000 }
  cacheOptions := some { ttlMs := 60000, negativeTtlMs := 10000, maxEntries := 500 }

def unknownKey : LookupKey := ⟨.organisation, .id, "oati:org:unknown"⟩

def notFoundResponse : ResolverResponse := ⟨404, [], 0⟩

def notFoundEntry : CacheEntry where
  record := none
  expiresAt := some (Double.round ((0 : ℤ) + (10000 : ℚ)))
  resolverUrl := "https://resolver.example"
  rateLimit := {}

/-- The calls of a lookup that asks the resolver. -/
def notFoundTrace : List (Event LookupAnswer LookupThrown) :=
  [⟨.readCache unknownKey.cacheKey .default, .ok (.miss none)⟩,
    ⟨.fetch ⟨"https://resolver.example", unknownKey, none⟩, .ok (some notFoundResponse)⟩,
    ⟨.readBody, .ok none⟩, ⟨.now, .ok 0⟩, ⟨.store unknownKey.cacheKey notFoundEntry, .ok ()⟩]

/-- The calls of one that follows it. -/
def cachedTrace : List (Event LookupAnswer LookupThrown) :=
  [⟨.readCache unknownKey.cacheKey .default, .ok (.hit notFoundEntry 1)⟩]

def lookupUnknown : LookupProg (Option LookupResponse) :=
  (ClientOperation.lookup unknownKey {}).program plainEngine directory

theorem run_notFoundTrace : Run lookupUnknown notFoundTrace
    (.error (.lookup (responseError notFoundResponse {}))) :=
  .step (.step (.step (.step (.step (.refl _)))))

theorem run_cachedTrace : Run lookupUnknown cachedTrace (.error (.lookup cachedNotFound)) :=
  .step (.refl _)

/-- The two lookups, of the processes `false` and `true`. -/
theorem unknown_run : ∃ current s, ClientRun plainEngine directory
    (fun _ : Bool => .lookup unknownKey {})
    (notFoundTrace.map (false, ·) ++ cachedTrace.map (true, ·)) current s ∧
    current true = .done (.error (.lookup cachedNotFound)) := by
  have hfirst : Serves (ClientServed directory) ClientState.initial notFoundTrace
      ⟨storeEntry directory InsertionMap.empty unknownKey.cacheKey notFoundEntry, 1⟩ := by
    refine .cons (.miss fun _ _ h => (by cases h)) (.cons (.fetch ?_) ?_)
    · intro r hr
      rw [← Option.some.inj hr]
      rfl
    · exact .cons (.outside rfl) (.cons (.outside rfl) (.cons .store .nil))
  have hfresh : notFoundEntry.Fresh 1 := ⟨_, rfl, by decide +kernel⟩
  have hidle : ClientRun plainEngine directory (fun _ : Bool => .lookup unknownKey {}) []
      (fun _ => lookupUnknown) ClientState.initial := .nil
  have hstart := hidle.extend (i := false) rfl run_notFoundTrace hfirst
  have hend := hstart.extend (i := true) rfl run_cachedTrace (.cons (.hit rfl hfresh) .nil)
  exact ⟨_, _, hend, Function.update_self true _ _⟩

theorem cache_integrity_unknown :
    (∃ entry, HitOf plainEngine directory (fun _ : Bool => .lookup unknownKey {})
      (notFoundTrace.map (false, ·) ++ cachedTrace.map (true, ·)) true unknownKey {} entry ∧
      entry.record = none) ∧
    AnsweredNotFound (notFoundTrace.map (false, ·) ++ cachedTrace.map (true, ·)) unknownKey := by
  obtain ⟨current, s, hrun, hdone⟩ := unknown_run
  obtain ⟨hhit, hnotFound⟩ := (cache_integrity hrun).2.1 true unknownKey {} cachedNotFound rfl hdone
  exact ⟨hhit rfl, hnotFound rfl⟩

end Oati.TypeScript
