import Oati.TypeScript.CanonicalSpec
import Oati.TypeScript.LookupCache

/-!
# Clears of the cache

A clear deletes the entries it selects. A lookup that has already read one of them, or has already
been answered, stores what it holds afterwards, and the next lookup gets it as a hit.

* `ClearsAreFinal`: after a clear, no lookup that starts gets a hit with a record that was fetched
  before the clear.
* `QuietClears`: no lookup of a selected key holds a record when it is cleared.
* `clearsAreFinal_of_quiet`: then clears are final; `cleared_organisation_hit`: else they need not be.
-/

namespace Oati.TypeScript

open Prog

variable {engine : Engine} {client : OatiLookupClient} {P : Type}
  {history before after : List (P × Event LookupAnswer LookupThrown)} {s s' : ClientState}

/-! ### What is left -/

/-- The record was brought by a response of the history. -/
def FetchedIn (history : List (P × Event LookupAnswer LookupThrown)) (record : FetchedRecord) :
    Prop :=
  ∃ i request response, (i, ⟨.fetch request, .ok (some response)⟩) ∈ history ∧
    response.number = record.response

/-- What is there of the selected keys after a clear was fetched after it. -/
structure Renewed (selection : CacheClear)
    (before after : List (P × Event LookupAnswer LookupThrown)) (s : ClientState) : Prop where
  entries : ∀ key entry record, (LookupKey.cacheKey key, entry) ∈ s.entries →
    selection.selects key.cacheKey = true → entry.record = some record → ¬ FetchedIn before record
  reads : ∀ i key mode read entry record,
    (i, ⟨.readCache (LookupKey.cacheKey key) mode, .ok read⟩) ∈ after → read.entry = some entry →
    selection.selects key.cacheKey = true → entry.record = some record → ¬ FetchedIn before record
  fetches : ∀ i request response record, (i, ⟨.fetch request, .ok (some response)⟩) ∈ after →
    record.response = response.number → ¬ FetchedIn before record

/-- A step keeps to what was renewed, if what it adds was. -/
theorem Renewed.step {selection : CacheClear} (hs : Renewed selection before after s) {i : P}
    {event : Event LookupAnswer LookupThrown}
    (hentries : ∀ key entry record, (LookupKey.cacheKey key, entry) ∈ s'.entries →
      selection.selects key.cacheKey = true → entry.record = some record →
      (key.cacheKey, entry) ∈ s.entries ∨ ¬ FetchedIn before record)
    (hreads : ∀ cacheKey mode read entry, event = ⟨.readCache cacheKey mode, .ok read⟩ →
      read.entry = some entry → (cacheKey, entry) ∈ s.entries)
    (hfetches : ∀ request response record, event = ⟨.fetch request, .ok (some response)⟩ →
      record.response = response.number → ¬ FetchedIn before record) :
    Renewed selection before (after ++ [(i, event)]) s' where
  entries key entry record h hselected hrecord := by
    obtain hold | hnew := hentries key entry record h hselected hrecord
    · exact hs.entries key entry record hold hselected hrecord
    · exact hnew
  reads j key mode read entry record h hentry hselected hrecord := by
    rw [List.mem_append, List.mem_singleton] at h
    obtain hold | hnew := h
    · exact hs.reads j key mode read entry record hold hentry hselected hrecord
    · have hmem := hreads _ mode read entry (Prod.mk.inj hnew).2.symm hentry
      exact hs.entries key entry record hmem hselected hrecord
  fetches j request response record h hnumber := by
    rw [List.mem_append, List.mem_singleton] at h
    obtain hold | hnew := h
    · exact hs.fetches j request response record hold hnumber
    · exact hfetches request response record (Prod.mk.inj hnew).2.symm hnumber

/-- A clear leaves nothing that it selects. -/
theorem renewed_clear {selection : CacheClear}
    (h : ClientServed client s ⟨.clear selection, .ok ()⟩ s') : Renewed selection before [] s' := by
  cases h with
  | clear =>
    refine ⟨fun key entry record hmem hselected _ => ?_, fun _ _ _ _ _ _ h => ?_, fun _ _ _ _ h => ?_⟩
    · obtain ⟨-, hkept⟩ := InsertionMap.mem_keep.mp hmem
      rw [hselected] at hkept
      cases hkept
    · exact absurd h List.not_mem_nil
    · exact absurd h List.not_mem_nil
  | outside hc => cases hc

/-! ### Clears -/

/-- The lookup has read an entry with a record, or a resolver has answered it with a success. -/
def HoldsRecord (past : LookupPast) (key : LookupKey) (options : LookupOptions) : Prop :=
  (∃ entry record, ReadEntry past key options entry ∧ entry.record = some record) ∨
    ∃ number, Succeeded past key number

variable [DecidableEq P] {operations : P → ClientOperation}
  {current : P → LookupProg (Option LookupResponse)}

/-- After a clear, no lookup of a selected key starts and reports a hit with a record that was
fetched before the clear. -/
def ClearsAreFinal (operations : P → ClientOperation)
    (history : List (P × Event LookupAnswer LookupThrown))
    (current : P → LookupProg (Option LookupResponse)) : Prop :=
  ∀ before after c selection i key options response,
    history = before ++ (c, ⟨.clear selection, .ok ()⟩) :: after →
    operations i = .lookup key options → own i before = [] →
    selection.selects key.cacheKey = true →
    current i = .done (.ok (some response)) → response.cache = .hit →
    ¬ FetchedIn before response.record

/-- When the selection is cleared after the history, no lookup of a selected key holds a record
that it may store. -/
def QuietClear (engine : Engine) (client : OatiLookupClient) (operations : P → ClientOperation)
    (selection : CacheClear) (before : List (P × Event LookupAnswer LookupThrown)) : Prop :=
  ∀ middle found, ClientRun engine client operations before middle found →
    ∀ i key options, operations i = .lookup key options → options.cache ≠ .noStore →
      selection.selects key.cacheKey = true → HoldsRecord (own i before) key options →
      ∃ r, middle i = .done r

/-- Every clear is quiet. -/
def QuietClears (engine : Engine) (client : OatiLookupClient) (operations : P → ClientOperation)
    (history : List (P × Event LookupAnswer LookupThrown)) : Prop :=
  ∀ before after c selection, history = before ++ (c, ⟨.clear selection, .ok ()⟩) :: after →
    QuietClear engine client operations selection before

/-! ### Numbers of responses -/

/-- The responses of a run have smaller numbers than the next one. -/
theorem ClientRun.number_lt (h : ClientRun engine client operations history current s) {i : P}
    {request : LookupRequest} {response : ResolverResponse}
    (hmem : (i, ⟨.fetch request, .ok (some response)⟩) ∈ history) :
    response.number < s.responses := by
  induction h with
  | nil => exact absurd hmem List.not_mem_nil
  | @snoc history current s s' j c next answer _ _ hserve ih =>
    rw [List.mem_append, List.mem_singleton] at hmem
    obtain hold | hnew := hmem
    · have hlt := ih hold
      cases hserve with
      | fetch _ => exact hlt.trans (Nat.lt_succ_self _)
      | _ => exact hlt
    · obtain ⟨-, hevent⟩ := Prod.mk.inj hnew
      cases hserve with
      | fetch hnumber =>
        cases hevent
        rw [hnumber response rfl]
        exact Nat.lt_succ_self _
      | outside hc =>
        cases hevent
        cases hc
      | _ => cases hevent

/-! ### Runs after a quiet clear -/

/-- A lookup that makes a call after a quiet clear held no record when it happened. -/
theorem QuietClear.not_holdsRecord {selection : CacheClear} {c i : P}
    (hquiet : QuietClear engine client operations selection before)
    (h : ClientRun engine client operations
      (before ++ (c, ⟨.clear selection, .ok ()⟩) :: after) current s)
    {key : LookupKey} {options : LookupOptions} (hoperation : operations i = .lookup key options)
    (hstores : options.cache ≠ .noStore) (hselected : selection.selects key.cacheKey = true)
    {call : LookupCall}
    {next : Except LookupThrown (LookupAnswer call) → LookupProg (Option LookupResponse)}
    (hcall : current i = .call call next) : ¬ HoldsRecord (own i before) key options := by
  intro hholds
  obtain ⟨middle, found, found', hbefore, -⟩ := h.split
  obtain ⟨r, hr⟩ := hquiet middle found hbefore i key options hoperation hstores hselected hholds
  have hdone := hbefore.done_stays h hr
  rw [hdone] at hcall
  cases hcall

/-- What a lookup stores after a quiet clear was fetched after it. -/
theorem QuietClear.renews {selection : CacheClear} {c i : P}
    (hquiet : QuietClear engine client operations selection before)
    (h : ClientRun engine client operations
      (before ++ (c, ⟨.clear selection, .ok ()⟩) :: after) current s)
    (hs : Renewed selection before after s) {key : LookupKey} {entry : CacheEntry}
    {record : FetchedRecord} (hselected : selection.selects key.cacheKey = true)
    (hrecord : entry.record = some record)
    {next : Except LookupThrown Unit → LookupProg (Option LookupResponse)}
    (hcall : current i = .call (.store key.cacheKey entry) next) : ¬ FetchedIn before record := by
  have hrule := h.next hcall
  cases hoperation : operations i with
  | clear _ =>
    rw [hoperation] at hrule
    cases hrule
  | lookup own options =>
    rw [hoperation] at hrule
    obtain ⟨hstores, hkey, hsound, -⟩ := hrule.stores _ entry rfl
    obtain rfl := cacheKey_injective hkey
    have hholds := hquiet.not_holdsRecord h hoperation hstores hselected hcall
    obtain ⟨-, response, ⟨request, hrequest, hfetched⟩, hstatus, hnumber⟩ | ⟨read, hread, hfound⟩ :=
      hsound record hrecord
    · rw [Answered, mem_own, List.mem_append, List.mem_cons] at hfetched
      obtain hearly | hclear | hlate := hfetched
      · refine absurd (.inr ⟨response.number, response, ?_, hstatus, rfl⟩) hholds
        exact ⟨request, hrequest, mem_own.mpr hearly⟩
      · cases (Prod.mk.inj hclear).2
      · exact hs.fetches i request response record hlate hnumber.symm
    · rw [ReadEntry, Answered, mem_own, List.mem_append, List.mem_cons] at hread
      obtain hearly | hclear | hlate := hread
      · exact absurd (.inl ⟨read, record, mem_own.mpr hearly, hfound⟩) hholds
      · cases (Prod.mk.inj hclear).2
      · exact hs.reads i key _ _ read record hlate rfl hselected hfound

/-- The induction is on the steps after the clear. -/
theorem ClientRun.renewed {selection : CacheClear} {c : P}
    (hquiet : QuietClear engine client operations selection before)
    (h : ClientRun engine client operations
      (before ++ (c, ⟨.clear selection, .ok ()⟩) :: after) current s) :
    Renewed selection before after s := by
  generalize hall : before ++ (c, ⟨.clear selection, .ok ()⟩) :: after = all at h
  induction h generalizing after with
  | nil => cases (List.append_eq_nil_iff.mp hall).2
  | @snoc history current s s' i call next answer hrest hcall hserve ih =>
    rcases List.eq_nil_or_concat after with rfl | ⟨after', last, rfl⟩
    · obtain ⟨-, hlast⟩ := List.append_inj' hall rfl
      obtain ⟨-, hevent⟩ := Prod.mk.inj (List.singleton_inj.mp hlast)
      rw [← hevent] at hserve
      exact renewed_clear hserve
    · rw [List.concat_eq_append, ← List.cons_append, ← List.append_assoc] at hall
      obtain ⟨hhistory, hlast⟩ := List.append_inj' hall rfl
      have hs := ih hhistory
      rw [List.concat_eq_append, List.singleton_inj.mp hlast]
      subst hhistory
      have hnumbers : ∀ record : FetchedRecord, record.response = s.responses →
          ¬ FetchedIn before record := by
        rintro record hnumber ⟨j, request, response, hmem, hresponse⟩
        have hlt := ClientRun.number_lt hrest (List.mem_append_left _ hmem)
        rw [hresponse, hnumber] at hlt
        exact absurd hlt (lt_irrefl _)
      cases hserve with
      | hit hentry hfresh =>
        refine hs.step (fun _ _ _ hmem _ _ => .inl (mem_touch hentry hmem)) ?_
          fun _ _ _ hevent => (by cases hevent)
        rintro cacheKey mode read entry hevent hread
        cases hevent
        cases hread
        exact InsertionMap.mem_of_get hentry
      | miss hstale =>
        refine hs.step (fun _ _ _ hmem _ _ => .inl hmem) ?_ fun _ _ _ hevent => (by cases hevent)
        rintro cacheKey mode read entry hevent hread
        cases hevent
        exact InsertionMap.mem_of_get hread
      | store =>
        refine hs.step (fun key found record hmem hselected hrecord => ?_)
          (fun _ _ _ _ hevent => (by cases hevent)) fun _ _ _ hevent => (by cases hevent)
        obtain hold | ⟨rfl, rfl⟩ := mem_storeEntry hmem
        · exact .inl hold
        · exact .inr (hquiet.renews hrest hs hselected hrecord hcall)
      | clear =>
        exact hs.step (fun _ _ _ hmem _ _ => .inl (InsertionMap.mem_keep.mp hmem).1)
          (fun _ _ _ _ hevent => (by cases hevent)) fun _ _ _ hevent => (by cases hevent)
      | fetch hnumber =>
        refine hs.step (fun _ _ _ hmem _ _ => .inl hmem) (fun _ _ _ _ hevent => (by cases hevent)) ?_
        rintro request response record hevent hrecord
        cases hevent
        exact hnumbers record (hrecord.trans (hnumber response rfl))
      | outside hc =>
        refine hs.step (fun _ _ _ hmem _ _ => .inl hmem) ?_ ?_
        · rintro cacheKey mode read entry hevent -
          cases hevent
          cases hc
        · rintro request response record hevent -
          cases hevent
          cases hc

theorem clearsAreFinal_of_quiet (h : ClientRun engine client operations history current s)
    (hquiet : QuietClears engine client operations history) :
    ClearsAreFinal operations history current := by
  intro before after c selection i key options response hhistory hoperation hlater hselected hdone
    hcache
  have hclear := hquiet before after c selection hhistory
  subst hhistory
  have hrenewed := h.renewed hclear
  obtain hasked | ⟨entry, ⟨now, hhit⟩, hentry⟩ := h.response hoperation hdone
  · exact absurd hcache (hasked.1 response rfl).1
  · cases hfound : entry.record with
    | none =>
      rw [hfound] at hentry
      cases hentry
    | some record =>
      rw [hfound] at hentry
      obtain ⟨found, hok, -, rfl⟩ := hentry
      obtain rfl := Except.ok.inj hok
      rw [Answered, own_append, hlater, List.nil_append, mem_own, List.mem_cons] at hhit
      obtain hclear | hlate := hhit
      · cases (Prod.mk.inj hclear).2
      · exact hrenewed.reads i key _ _ entry _ hlate rfl hselected hfound

/-! ### A revocation that is cleared -/

/-- A body that is the text of a record. -/
def recordBody (engine : Engine) (record : Record) : BodyStream :=
  ⟨[Utf8.encode (stringify engine (.obj record)).toList], false⟩

/-- The text of a record without numbers is read back from its body. -/
theorem parsePayload_recordBody {record : Record} (hdistinct : (Json.obj record : Value).Distinct)
    (hnumbers : (Json.obj record : Value).numbers = []) :
    parsePayload engine (recordBody engine record).chunks.flatten = some (some (.obj record)) := by
  obtain ⟨cs, hcs⟩ : ∃ cs, (stringify engine (.obj record)).toList = '{' :: cs := by
    rw [stringify, String.toList_ofList]
    cases record <;> exact ⟨_, rfl⟩
  have hparse := @jsonParse_stringify engine _ hdistinct hnumbers
  have htext : decodeFatal (Utf8.encode ('{' :: cs)) = some ('{' :: cs) := by
    rw [decodeFatal, Utf8.decode_encode, if_pos rfl, decodeText, Utf8.decode_encode]
    rfl
  rw [hcs] at hparse
  rw [recordBody, List.flatten_singleton, hcs, parsePayload, htext]
  simp only [hparse]
  rfl

/-- What the resolver says of an agent before it is revoked. -/
def goodRevocation : Record :=
  [("type", .str "revocation"), ("id", .str "oati:revocation:1"), ("status", .str "active"),
    ("issuer", .str "oati:issuer:root"), ("proof_status", .str "verified"),
    ("public_attributes", .obj [("target", .str "oati:agent:1"), ("revocation_status", .str "good")])]

def agentKey : LookupKey := ⟨.revocation, .target, "oati:agent:1"⟩

def goodResponse : ResolverResponse := ⟨200, [], 0⟩

def goodEntry : CacheEntry where
  record := some ⟨goodRevocation, 0⟩
  expiresAt := some (Double.round ((0 : ℤ) + (60000 : ℚ)))
  resolverUrl := "https://resolver.example"
  rateLimit := {}

def lookupAgent : LookupProg (Option LookupResponse) :=
  (ClientOperation.lookup agentKey {}).program plainEngine directory

/-- A lookup asks the resolver. -/
def askTrace : List (Event LookupAnswer LookupThrown) :=
  [⟨.readCache agentKey.cacheKey .default, .ok (.miss none)⟩,
    ⟨.fetch ⟨"https://resolver.example", agentKey, none⟩, .ok (some goodResponse)⟩]

/-- It reads what the resolver has answered, and stores it. -/
def keepTrace : List (Event LookupAnswer LookupThrown) :=
  [⟨.readBody, .ok (some (recordBody plainEngine goodRevocation))⟩, ⟨.now, .ok 0⟩,
    ⟨.store agentKey.cacheKey goodEntry, .ok ()⟩]

/-- A lookup that follows gets a hit. -/
def hitTrace : List (Event LookupAnswer LookupThrown) :=
  [⟨.readCache agentKey.cacheKey .default, .ok (.hit goodEntry 1)⟩]

theorem collect_goodRevocation :
    collectPayload plainEngine goodResponse directory.maxResponseBytes
      (recordBody plainEngine goodRevocation) = .ok (some (.obj goodRevocation)) := by
  have hparse := @parsePayload_recordBody plainEngine goodRevocation
    ⟨by decide, trivial, trivial, trivial, trivial, trivial, ⟨by decide, trivial, trivial, trivial⟩, trivial⟩ rfl
  have hlength : ¬ directory.maxResponseBytes
      < (recordBody plainEngine goodRevocation).chunks.flatten.length := by
    rw [recordBody, stringify, String.toList_ofList]
    decide +kernel
  rw [collectPayload, if_neg hlength, if_neg (by decide), hparse]

theorem run_readPayload_goodRevocation :
    Run (readPayload plainEngine goodResponse directory.maxResponseBytes)
      [⟨.readBody, .ok (some (recordBody plainEngine goodRevocation))⟩]
      (.ok (some (.obj goodRevocation))) := by
  have hresult : Run (Prog.ofExcept (A := LookupAnswer)
      (collectPayload plainEngine goodResponse directory.maxResponseBytes
        (recordBody plainEngine goodRevocation))) [] (.ok (some (.obj goodRevocation))) :=
    run_ofExcept_iff.mpr ⟨rfl, collect_goodRevocation.symm⟩
  exact .step hresult

/-- What the lookup that asks the resolver returns. -/
def goodRequested : RequestedRecord where
  record := ⟨goodRevocation, 0⟩
  expiresAt := some (Double.round ((0 : ℤ) + (60000 : ℚ)))
  etag := none
  rateLimit := {}
  revalidated := false
  cacheable := true

theorem run_handleResponse_goodRevocation :
    Run (handleResponse plainEngine directory agentKey none goodResponse)
      [⟨.readBody, .ok (some (recordBody plainEngine goodRevocation))⟩, ⟨.now, .ok 0⟩]
      (.ok goodRequested) :=
  Run.bind (t := []) (.refl _) (Run.bind run_readPayload_goodRevocation (.step (.refl _)))

theorem run_requestOnce_goodRevocation :
    Run (requestOnce plainEngine directory "https://resolver.example" agentKey {} none)
      [⟨.fetch ⟨"https://resolver.example", agentKey, none⟩, .ok (some goodResponse)⟩,
        ⟨.readBody, .ok (some (recordBody plainEngine goodRevocation))⟩, ⟨.now, .ok 0⟩]
      (.ok goodRequested) := by
  have hfetch : Run (fetchRecord plainEngine directory "https://resolver.example" agentKey none)
      [⟨.fetch ⟨"https://resolver.example", agentKey, none⟩, .ok (some goodResponse)⟩,
        ⟨.readBody, .ok (some (recordBody plainEngine goodRevocation))⟩, ⟨.now, .ok 0⟩]
      (.ok goodRequested) := .step run_handleResponse_goodRevocation
  exact Run.bind (t := []) (.refl _) (Run.bind hfetch.attempt (.refl _))

/-- A request that succeeds is not repeated. -/
theorem run_retryLoop_ok {retry : LookupRetryOptions} {request : LookupProg RequestedRecord}
    {trace : LookupPast} {requested : RequestedRecord} (h : Run request trace (.ok requested))
    {left : ℕ} : Run (retryLoop retry request left) trace (.ok requested) := by
  cases left with
  | zero => exact h
  | succ left =>
    exact run_bind_iff.mpr
      (.inr ⟨.ok requested, trace, [], (List.append_nil _).symm, h.attempt, .refl _⟩)

/-- What the lookup returns. -/
def goodAnswer : LookupResponse where
  record := ⟨goodRevocation, 0⟩
  resolverUrl := "https://resolver.example"
  cache := .miss
  rateLimit := {}

theorem run_lookupAgent : Run lookupAgent (askTrace ++ keepTrace) (.ok (some goodAnswer)) := by
  have hretry : Run (requestWithRetry plainEngine directory "https://resolver.example" agentKey {}
      none) _ (.ok goodRequested) := run_retryLoop_ok run_requestOnce_goodRevocation
  have hresolver : Run (lookupResolver plainEngine directory agentKey {} none
      "https://resolver.example")
      [⟨.fetch ⟨"https://resolver.example", agentKey, none⟩, .ok (some goodResponse)⟩,
        ⟨.readBody, .ok (some (recordBody plainEngine goodRevocation))⟩, ⟨.now, .ok 0⟩,
        ⟨.store agentKey.cacheKey goodEntry, .ok ()⟩] (.ok goodAnswer) :=
    Run.bind hretry (.step (.refl _))
  have hresolvers : Run (lookupResolvers plainEngine directory agentKey {} none none
      directory.resolverUrls)
      [⟨.fetch ⟨"https://resolver.example", agentKey, none⟩, .ok (some goodResponse)⟩,
        ⟨.readBody, .ok (some (recordBody plainEngine goodRevocation))⟩, ⟨.now, .ok 0⟩,
        ⟨.store agentKey.cacheKey goodEntry, .ok ()⟩] (.ok goodAnswer) :=
    Run.bind hresolver.attempt (.refl _)
  have hselected : Run (lookupSelectedDetailed plainEngine directory agentKey {})
      (askTrace ++ keepTrace) (.ok goodAnswer) := .step hresolvers
  exact Run.bind (t := askTrace ++ keepTrace) hselected (.refl _)

/-- A first lookup, a clear, and a second lookup. -/
inductive Caller where
  | first
  | clear
  | second
  deriving DecidableEq

def agentOperations : Caller → ClientOperation
  | .first => .lookup agentKey {}
  | .clear => .clear .targets
  | .second => .lookup agentKey {}

theorem serves_askTrace {entries : InsertionMap String CacheEntry}
    (hentry : entries.get agentKey.cacheKey = none) :
    Serves (ClientServed directory) ⟨entries, 0⟩ askTrace ⟨entries, 1⟩ := by
  have hmiss : ClientServed directory ⟨entries, 0⟩
      ⟨.readCache agentKey.cacheKey .default, .ok (.miss none)⟩ ⟨entries, 0⟩ := by
    rw [← hentry]
    refine .miss fun _ entry h => ?_
    rw [hentry] at h
    cases h
  refine .cons hmiss (.cons (.fetch ?_) .nil)
  intro r hr
  rw [← Option.some.inj hr]
  rfl

theorem serves_keepTrace {s : ClientState} : Serves (ClientServed directory) s keepTrace
    { s with entries := storeEntry directory s.entries agentKey.cacheKey goodEntry } :=
  .cons (.outside rfl) (.cons (.outside rfl) (.cons .store .nil))

/-- The clear comes while the lookup waits for the body. -/
def staleHistory : List (Caller × Event LookupAnswer LookupThrown) :=
  askTrace.map (.first, ·) ++ [(.clear, ⟨.clear .targets, .ok ()⟩)] ++ keepTrace.map (.first, ·)
    ++ hitTrace.map (.second, ·)

theorem cleared_agent_hit : ∃ current s,
    ClientRun plainEngine directory agentOperations staleHistory current s ∧
    ¬ ClearsAreFinal agentOperations staleHistory current := by
  obtain ⟨waiting, hask, hkeep⟩ :
      ∃ waiting, Steps lookupAgent askTrace waiting ∧
        Steps waiting keepTrace (.done (.ok (some goodAnswer))) :=
    ⟨_, .step (.step (.refl _)), run_lookupAgent.rest (.step (.step (.refl _)))⟩
  have hhit : Run lookupAgent hitTrace (.ok (some { goodAnswer with cache := .hit })) :=
    .step (.refl _)
  have hfresh : goodEntry.Fresh 1 := ⟨_, rfl, by decide +kernel⟩
  have hidle : ClientRun plainEngine directory agentOperations []
      (fun i => (agentOperations i).program plainEngine directory) ClientState.initial := .nil
  have hasked := hidle.extend (i := Caller.first) rfl hask (serves_askTrace rfl)
  have hcleared := hasked.extend (i := Caller.clear) rfl (q := .done (.ok none)) (.step (.refl _))
    (.cons .clear .nil)
  have hkept := hcleared.extend (i := Caller.first) rfl hkeep serves_keepTrace
  have hend := hkept.extend (i := Caller.second) rfl hhit (.cons (.hit rfl hfresh) .nil)
  refine ⟨_, _, hend, fun hfinal => ?_⟩
  refine hfinal (askTrace.map (.first, ·)) (keepTrace.map (.first, ·) ++ hitTrace.map (.second, ·)) .clear .targets .second
    agentKey {} { goodAnswer with cache := .hit } ?_ rfl rfl (by decide) ?_ rfl ?_
  · rfl
  · exact Function.update_self _ _ _
  · exact ⟨.first, _, goodResponse, List.mem_map_of_mem (List.mem_cons_of_mem _ List.mem_cons_self), rfl⟩

/-- The clear comes before the lookup. -/
def renewedHistory : List (Caller × Event LookupAnswer LookupThrown) :=
  [(.clear, ⟨.clear .targets, .ok ()⟩)] ++ (askTrace ++ keepTrace).map (.first, ·)
    ++ hitTrace.map (.second, ·)

theorem renewed_run : ∃ current s,
    ClientRun plainEngine directory agentOperations renewedHistory current s := by
  have hask : Serves (ClientServed directory) ClientState.initial (askTrace ++ keepTrace)
      ⟨storeEntry directory InsertionMap.empty agentKey.cacheKey goodEntry, 1⟩ :=
    (serves_askTrace rfl).append serves_keepTrace
  have hhit : Run lookupAgent hitTrace (.ok (some { goodAnswer with cache := .hit })) :=
    .step (.refl _)
  have hfresh : goodEntry.Fresh 1 := ⟨_, rfl, by decide +kernel⟩
  have hidle : ClientRun plainEngine directory agentOperations []
      (fun i => (agentOperations i).program plainEngine directory) ClientState.initial := .nil
  have hcleared := hidle.extend (i := Caller.clear) rfl (q := .done (.ok none)) (.step (.refl _))
    (.cons .clear .nil)
  have hkept := hcleared.extend (i := Caller.first) rfl run_lookupAgent hask
  have hend := hkept.extend (i := Caller.second) rfl hhit (.cons (.hit rfl hfresh) .nil)
  exact ⟨_, _, hend⟩

/-- Nothing is there when it comes. -/
theorem quiet_renewedHistory : QuietClears plainEngine directory agentOperations renewedHistory := by
  intro before after c selection hhistory middle found _ i key options _ _ _ hholds
  cases before with
  | nil =>
    obtain ⟨entry, record, hread, -⟩ | ⟨number, response, ⟨request, -, hfetched⟩, -⟩ := hholds
    · exact absurd hread List.not_mem_nil
    · exact absurd hfetched List.not_mem_nil
  | cons first before =>
    have hrest : (askTrace ++ keepTrace).map (Caller.first, ·) ++ hitTrace.map (Caller.second, ·)
        = before ++ (c, ⟨.clear selection, .ok ()⟩) :: after := (List.cons.inj hhistory).2
    have hmem : (c, ⟨.clear selection, .ok ()⟩) ∈
        (askTrace ++ keepTrace).map (Caller.first, ·) ++ hitTrace.map (Caller.second, ·) := by
      rw [hrest]
      exact List.mem_append_right _ List.mem_cons_self
    simp [askTrace, keepTrace, hitTrace] at hmem

theorem clearsAreFinal_renewedHistory : ∃ current s,
    ClientRun plainEngine directory agentOperations renewedHistory current s ∧
    ClearsAreFinal agentOperations renewedHistory current := by
  obtain ⟨current, s, hrun⟩ := renewed_run
  exact ⟨current, s, hrun, clearsAreFinal_of_quiet hrun quiet_renewedHistory⟩

end Oati.TypeScript
