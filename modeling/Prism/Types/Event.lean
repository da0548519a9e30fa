import Prism.Types.Float64
import Prism.Types.Hash
import Prism.Lib.OrderedMap

/-!
The logical event and what admission can check of it alone (`prism-types/src/event.rs`,
`attributes.rs`, `limits.rs` and `error.rs`).
-/

namespace Prism

inductive PrismError where
  | io (message : String)
  | corrupt (message : String)
  | invalid (message : String)
  | policy (message : String)
  | notFound (message : String)
  | decode (message : String)
  | invariant (message : String)
  | outOfSpace (message : String)
  deriving DecidableEq, Repr

abbrev Result := Except PrismError

def PrismError.display : PrismError → String
  | .io m => s!"io error: {m}"
  | .corrupt m => s!"corrupt data: {m}"
  | .invalid m => s!"invalid input: {m}"
  | .policy m => s!"model policy denied: {m}"
  | .notFound m => s!"not found: {m}"
  | .decode m => s!"decode error: {m}"
  | .invariant m => s!"invariant violation: {m}"
  | .outOfSpace m => s!"out of disk space: {m}"

/-- The value of a Rust computation that may panic; `none` is the panic. -/
abbrev Panics (α : Type) := Option α

/-- Reduce to the range of `i64`, as wrapping arithmetic does. -/
def wrapI64 (x : Int) : Int := x.bmod (2 ^ 64)

def minI64 : Int := -(2 ^ 63)

/-- `i64::saturating_sub` for a subtrahend that is not negative. -/
def saturatingSub (a b : Int) : Int := max minI64 (a - b)

def i64Bytes (x : Int) : Bytes := Bytes.le 8 (x % 2 ^ 64).toNat

def utf8 (s : String) : Bytes := s.toList.flatMap String.utf8EncodeChar

def zeroPadded (width n : Nat) : String :=
  let digits := Nat.toDigits 10 n
  String.ofList (List.replicate (width - digits.length) '0' ++ digits)

def deviceError : PrismError := .io "the device failed the access"

/-! ### Limits -/

def maxAttributeKeys : Nat := 64
def maxAttributeKeyBytes : Nat := 128
def maxAttributeValueBytes : Nat := 4 * 1024
def maxAttributesBytes : Nat := 16 * 1024
def maxAttributeKeyCardinality : Nat := 512
def maxLatenessMs : Int := 7 * 24 * 60 * 60 * 1000
def maxSkewAheadMs : Int := 60 * 60 * 1000
def maxBodyBytes : Nat := 1048576
def maxEventIdBytes : Nat := 256
def maxTenantIdBytes : Nat := 128
def maxEventNameBytes : Nat := 256
def maxTraceIdBytes : Nat := 128
def maxSpanIdBytes : Nat := 64
def maxIdempotencyKeyBytes : Nat := 256

inductive RejectReason where
  | missingEventId
  | missingTenantId
  | emptyBody
  | bodyTooLarge
  | invalidCost
  | tooManyAttributeKeys
  | attributeKeyTooLong
  | attributeValueTooLong
  | attributesTooLarge
  | attributeKeyCardinalityExceeded
  | eventTimeTooLate
  | eventTimeInFuture
  | invalidIdentifier
  | idempotencyConflict
  | quotaExceeded
  | modelPolicyDenied
  | embeddingFailed
  deriving DecidableEq, Repr

def RejectReason.asStr : RejectReason → String
  | .missingEventId => "missing_event_id"
  | .missingTenantId => "missing_tenant_id"
  | .emptyBody => "empty_body"
  | .bodyTooLarge => "body_too_large"
  | .invalidCost => "invalid_cost"
  | .tooManyAttributeKeys => "too_many_attribute_keys"
  | .attributeKeyTooLong => "attribute_key_too_long"
  | .attributeValueTooLong => "attribute_value_too_long"
  | .attributesTooLarge => "attributes_too_large"
  | .attributeKeyCardinalityExceeded => "attribute_key_cardinality_exceeded"
  | .eventTimeTooLate => "event_time_too_late"
  | .eventTimeInFuture => "event_time_in_future"
  | .invalidIdentifier => "invalid_identifier"
  | .idempotencyConflict => "idempotency_conflict"
  | .quotaExceeded => "quota_exceeded"
  | .modelPolicyDenied => "model_policy_denied"
  | .embeddingFailed => "embedding_failed"

structure Rejection where
  reason : RejectReason
  detail : String
  deriving DecidableEq, Repr

/-! ### Attributes -/

inductive AttrValue where
  | str (value : String)
  | int (value : Int)
  | double (value : F64)
  | bool (value : Bool)
  deriving DecidableEq, Repr

namespace AttrValue

def typeTag : AttrValue → UInt8
  | .str _ => 1
  | .int _ => 2
  | .double _ => 3
  | .bool _ => 4

def byteSize : AttrValue → Nat
  | .str s => s.utf8ByteSize
  | .int _ => 8
  | .double _ => 8
  | .bool _ => 1

def asDisplay : AttrValue → String
  | .str s => s
  | .int i => toString i
  | .double d => d.display
  | .bool b => if b then "true" else "false"

end AttrValue

abbrev Attributes := BTreeMap String AttrValue

namespace Attributes

/-- The slice `&k[..n]`, which panics when byte `n` is inside a character. -/
def sliceTo (s : String) (n : Nat) : Panics String :=
  let rec take : List Char → Nat → Panics (List Char)
    | _, 0 => some []
    | [], _ => some []
    | c :: rest, n => if n < c.utf8Size then none else (take rest (n - c.utf8Size)).map (c :: ·)
  (take s.toList n).map String.ofList

def validatePair (key : String) (value : AttrValue) : Panics (Except Rejection Unit) :=
  if key.isEmpty then
    some (.error ⟨.attributeKeyTooLong, "attribute key is empty"⟩)
  else if key.utf8ByteSize > maxAttributeKeyBytes then
    (sliceTo key (min key.utf8ByteSize 32)).map fun start => .error ⟨.attributeKeyTooLong,
      s!"attribute key `{start}…` is {key.utf8ByteSize} bytes, limit is {maxAttributeKeyBytes}"⟩
  else if value.byteSize > maxAttributeValueBytes then
    some (.error ⟨.attributeValueTooLong,
      s!"attribute `{key}` has a {value.byteSize}-byte value, limit is {maxAttributeValueBytes}"⟩)
  else
    match value with
    | .double d =>
      if !d.isFinite then
        some (.error ⟨.attributeValueTooLong,
          s!"attribute `{key}` is not a finite number: {d.display}"⟩)
      else some (.ok ())
    | _ => some (.ok ())

def validatePairs : List (String × AttrValue) → Nat → Panics (Except Rejection Nat)
  | [], total => some (.ok total)
  | (key, value) :: rest, total =>
    match validatePair key value with
    | none => none
    | some (.error rejection) => some (.error rejection)
    | some (.ok ()) => validatePairs rest (total + key.utf8ByteSize + value.byteSize)

def validate (attrs : Attributes) : Panics (Except Rejection Unit) :=
  if attrs.size > maxAttributeKeys then
    some (.error ⟨.tooManyAttributeKeys,
      s!"{attrs.size} attribute keys, limit is {maxAttributeKeys}"⟩)
  else
    (validatePairs attrs.toList 0).map fun checked =>
      checked.bind fun total =>
        if total > maxAttributesBytes then
          .error ⟨.attributesTooLarge,
            s!"attributes total {total} bytes, limit is {maxAttributesBytes}"⟩
        else .ok ()

def byteSize (attrs : Attributes) : Nat :=
  (attrs.toList.map fun (key, value) => key.utf8ByteSize + value.byteSize).sum

end Attributes

/-! ### Events -/

structure Event where
  eventId : String
  tenantId : String
  eventTime : Int
  observedTime : Int
  eventName : String
  cost : F64
  error : Bool
  body : String
  traceId : String
  spanId : String
  attributes : Attributes
  idempotencyKey : Option String
  deriving DecidableEq

namespace Event

variable (e : Event)

def dedupKey : String × String := (e.tenantId, e.idempotencyKey.getD e.eventId)

/-- The bytes that `content_hash` digests. It leaves out `event_id`, `observed_time` and
`idempotency_key`. -/
def contentBytes : Bytes :=
  utf8 e.tenantId ++ i64Bytes e.eventTime ++ utf8 e.eventName ++ Bytes.le 8 e.cost.bits.toNat ++
    [if e.error then 1 else 0] ++ utf8 e.body ++ utf8 e.traceId ++ utf8 e.spanId ++
    e.attributes.toList.flatMap fun (key, value) =>
      utf8 key ++ [value.typeTag] ++ utf8 value.asDisplay

def contentHash : String := contentId e.contentBytes

def byteSize (e : Event) : Nat :=
  e.eventId.utf8ByteSize + e.tenantId.utf8ByteSize + e.eventName.utf8ByteSize +
    e.body.utf8ByteSize + e.traceId.utf8ByteSize + e.spanId.utf8ByteSize +
    (e.idempotencyKey.map String.utf8ByteSize).getD 0 + e.attributes.byteSize

/-- One identifier field: its name, value, byte cap and whether it may be empty. -/
structure Identifier where
  field : String
  value : String
  max : Nat
  mayBeEmpty : Bool

def identifiers : List Identifier :=
  [⟨"event_id", e.eventId, maxEventIdBytes, false⟩,
   ⟨"tenant_id", e.tenantId, maxTenantIdBytes, false⟩,
   ⟨"event_name", e.eventName, maxEventNameBytes, false⟩,
   ⟨"trace_id", e.traceId, maxTraceIdBytes, true⟩,
   ⟨"span_id", e.spanId, maxSpanIdBytes, true⟩]

def Identifier.bad (i : Identifier) : Bool :=
  (!i.mayBeEmpty && i.value.isEmpty) || i.value.utf8ByteSize > i.max

/-- The characters `str::trim` removes: those with the Unicode property White_Space. -/
def isWhiteSpace (c : Char) : Bool :=
  let n := c.toNat
  (9 ≤ n && n ≤ 13) || n = 0x20 || n = 0x85 || n = 0xA0 || n = 0x1680 ||
    (0x2000 ≤ n && n ≤ 0x200A) || n = 0x2028 || n = 0x2029 || n = 0x202F || n = 0x205F ||
    n = 0x3000

def validateFields : Except Rejection Unit :=
  if e.eventId.isEmpty then .error ⟨.missingEventId, "event_id is empty"⟩
  else if e.tenantId.isEmpty then .error ⟨.missingTenantId, "tenant_id is empty"⟩
  else
    match e.identifiers.find? Identifier.bad with
    | some i => .error ⟨.invalidIdentifier, s!"{i.field} must contain 1..={i.max} bytes"⟩
    | none =>
      if e.idempotencyKey.any fun key => key.isEmpty || key.utf8ByteSize > maxIdempotencyKeyBytes then
        .error ⟨.invalidIdentifier,
          s!"idempotency_key must contain 1..={maxIdempotencyKeyBytes} bytes"⟩
      else if !e.cost.isFinite then
        .error ⟨.invalidCost, s!"cost is not finite: {e.cost.display}"⟩
      else if e.cost.belowZero then
        .error ⟨.invalidCost, s!"cost is negative: {e.cost.display}"⟩
      else if e.body.utf8ByteSize > maxBodyBytes then
        .error ⟨.bodyTooLarge, s!"body is {e.body.utf8ByteSize} bytes, limit is {maxBodyBytes}"⟩
      else if e.body.toList.all isWhiteSpace then
        .error ⟨.emptyBody, "body is empty; it would produce a zero-norm embedding"⟩
      else .ok ()

/-- Schema validation: everything checkable without knowing the store's state. -/
def validate (e : Event) : Panics (Except Rejection Unit) :=
  match e.validateFields with
  | .error rejection => some (.error rejection)
  | .ok () => e.attributes.validate

/-- The skew check, in wrapping 64-bit arithmetic. -/
def checkSkew (nowMs : Int) : Except Rejection Unit :=
  let lateness := wrapI64 (nowMs - e.eventTime)
  let ahead := wrapI64 (-lateness)
  if lateness > maxLatenessMs then
    .error ⟨.eventTimeTooLate,
      s!"event_time is {lateness} ms behind observed_time, past the {maxLatenessMs} ms " ++
      "lateness bound; its partition may already have been merged, tiered or expired"⟩
  else if ahead > maxSkewAheadMs then
    .error ⟨.eventTimeInFuture,
      s!"event_time is {ahead} ms in the future, past the {maxSkewAheadMs} ms bound; a " ++
      "clock-skewed producer would make this partition immortal"⟩
  else .ok ()

end Event

structure DeadLetter where
  reason : String
  detail : String
  stage : String
  event : Event
  deriving DecidableEq

end Prism
