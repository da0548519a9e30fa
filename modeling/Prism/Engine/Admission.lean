import Prism.Types.Event

/-!
What decides whether an event gets in: fair interleaving, the key dictionary, quotas and the
idempotency index (`prism-engine/src/admission.rs` and `idempotency.rs`).
-/

namespace Prism

/-! ### The key dictionary and quotas -/

abbrev KeyDictionary := BTreeMap String Unit

namespace KeyDictionary

def check (dict : KeyDictionary) (attrs : Attributes) : Except Rejection Unit :=
  match attrs.keys.filter (!dict.contains ·) with
  | [] => .ok ()
  | first :: others =>
    let novel := others.length + 1
    if dict.size + novel > maxAttributeKeyCardinality then
      .error ⟨.attributeKeyCardinalityExceeded,
        s!"this event introduces {novel} new attribute key(s) (e.g. `{first}`) to a partition " ++
        s!"that already holds {dict.size} of a maximum {maxAttributeKeyCardinality}. Unbounded " ++
        "attribute KEY cardinality is almost always an instrumentation bug — a value (a session " ++
        "id, a user id) has been used as a key. Values may be unbounded; keys may not."⟩
    else .ok ()

def insertAll (dict : KeyDictionary) (attrs : Attributes) : KeyDictionary :=
  attrs.keys.foldl (fun dict key => dict.insert key ()) dict

end KeyDictionary

structure Quota where
  eventsPerSec : Nat := 10000
  bytesPerSec : Nat := 32 * 1024 * 1024
  deriving DecidableEq, Repr

structure TenantUsage where
  windowStartMs : Int
  events : Nat
  bytes : Nat
  deriving DecidableEq, Repr

/-- The counters of one process; a restart forgets them. -/
structure QuotaEnforcer where
  perTenant : BTreeMap String TenantUsage
  limits : BTreeMap String Quota
  deriving DecidableEq

def QuotaEnforcer.fresh : QuotaEnforcer := ⟨∅, ∅⟩

namespace QuotaEnforcer

def windowMs : Int := 1000

def limitFor (q : QuotaEnforcer) (tenant : String) : Quota := (q.limits[tenant]?).getD {}

/-- Charge one event. The window is opened or rolled over even when the event is refused. -/
def charge (q : QuotaEnforcer) (e : Event) (nowMs : Int) : QuotaEnforcer × Except Rejection Unit :=
  let limit := q.limitFor e.tenantId
  let opened := (q.perTenant[e.tenantId]?).getD ⟨nowMs, 0, 0⟩
  let usage := if wrapI64 (nowMs - opened.windowStartMs) ≥ windowMs then ⟨nowMs, 0, 0⟩ else opened
  let held : QuotaEnforcer := { q with perTenant := q.perTenant.insert e.tenantId usage }
  if usage.events + 1 > limit.eventsPerSec then
    (held, .error ⟨.quotaExceeded,
      s!"tenant `{e.tenantId}` is over its {limit.eventsPerSec} events/sec quota " ++
      s!"({usage.events} already this second)"⟩)
  else if usage.bytes + e.byteSize > limit.bytesPerSec then
    (held, .error ⟨.quotaExceeded,
      s!"tenant `{e.tenantId}` is over its {limit.bytesPerSec} bytes/sec quota " ++
      s!"({usage.bytes} already this second, this event is {e.byteSize})"⟩)
  else
    let charged : TenantUsage := ⟨usage.windowStartMs, usage.events + 1, usage.bytes + e.byteSize⟩
    ({ q with perTenant := q.perTenant.insert e.tenantId charged }, .ok ())

end QuotaEnforcer

/-! ### Interleaving -/

def takeRounds : Nat → List (List Event) → List Event
  | 0, _ => []
  | fuel + 1, queues =>
    match queues.filterMap List.head? with
    | [] => []
    | heads => heads ++ takeRounds fuel (queues.map List.tail)

def interleaveByTenant (events : List Event) : List Event :=
  takeRounds events.length
    ((OrderedMap.groupBy Event.tenantId events).toList.map Prod.snd)

/-! ### Admission -/

structure Admitting where
  accepted : List Event
  rejected : List DeadLetter
  dict : KeyDictionary
  quotas : QuotaEnforcer

def Admitting.reject (a : Admitting) (e : Event) (r : Rejection) : Admitting :=
  { a with rejected := a.rejected ++ [⟨r.reason.asStr, r.detail, "admission", e⟩] }

def admitEvent (nowMs : Int) (a : Admitting) (arriving : Event) : Panics Admitting :=
  let e := { arriving with observedTime := nowMs }
  e.validate.map fun validated =>
    match validated with
    | .error r => a.reject e r
    | .ok () =>
      match e.checkSkew nowMs with
      | .error r => a.reject e r
      | .ok () =>
        match a.dict.check e.attributes with
        | .error r => a.reject e r
        | .ok () =>
          let (quotas, charged) := a.quotas.charge e nowMs
          match charged with
          | .error r => { a with quotas := quotas }.reject e r
          | .ok () =>
            { a with
              accepted := a.accepted ++ [e]
              dict := a.dict.insertAll e.attributes
              quotas := quotas }

def admitAll (nowMs : Int) : Admitting → List Event → Panics Admitting
  | a, [] => some a
  | a, e :: rest => (admitEvent nowMs a e).bind fun a => admitAll nowMs a rest

/-- `admission::admit`. -/
def admitEvents (events : List Event) (dict : KeyDictionary) (quotas : QuotaEnforcer) (nowMs : Int) :
    Panics Admitting :=
  admitAll nowMs ⟨[], [], dict, quotas⟩ (interleaveByTenant events)

/-! ### The idempotency index -/

inductive Verdict where
  | new
  | replay
  | conflict (storedHash : String)
  deriving DecidableEq, Repr

structure IdemEntry where
  contentHash : String
  eventTime : Int
  deriving DecidableEq, Repr

def ck (tenant key : String) : String := tenant ++ "\x1f" ++ key

def Event.ck (e : Event) : String := Prism.ck e.dedupKey.1 e.dedupKey.2

abbrev IdempotencyIndex := BTreeMap String IdemEntry

namespace IdempotencyIndex

variable (ix : IdempotencyIndex)

def check (tenant key contentHash : String) : Verdict :=
  match ix[ck tenant key]? with
  | none => .new
  | some entry =>
    if entry.contentHash = contentHash then .replay else .conflict entry.contentHash

def record (e : Event) : IdempotencyIndex :=
  ix.insert e.ck ⟨e.contentHash, e.eventTime⟩

def recordAll (events : List Event) : IdempotencyIndex :=
  events.foldl record ix

end IdempotencyIndex

structure Deduped where
  accepted : List Event
  suppressed : List Event
  conflicts : List DeadLetter
  deriving DecidableEq

def conflictLetter (e : Event) (storedHash : String) : DeadLetter :=
  { reason := RejectReason.idempotencyConflict.asStr
    detail := s!"key ({e.dedupKey.1}, {e.dedupKey.2}) was already accepted with content hash " ++
      s!"{storedHash}, and this event hashes to {e.contentHash}. An id that was supposed to " ++
      "identify one event now identifies two. Refusing rather than silently rewriting history " ++
      "under a reused id; both are kept — the stored one, and this one, here."
    stage := "idempotency"
    event := e }

/-- The stage reads the index as it was loaded and never writes it. -/
def dedupEvent (ix : IdempotencyIndex) (d : Deduped) (e : Event) : Deduped :=
  match ix.check e.dedupKey.1 e.dedupKey.2 e.contentHash with
  | .new => { d with accepted := d.accepted ++ [e] }
  | .replay => { d with suppressed := d.suppressed ++ [e] }
  | .conflict stored => { d with conflicts := d.conflicts ++ [conflictLetter e stored] }

def dedup (ix : IdempotencyIndex) (events : List Event) : Deduped :=
  events.foldl (dedupEvent ix) ⟨[], [], []⟩

end Prism
