import Prism.Types.Event

/-!
The outer partition of a row, `tenant-bucket × event-time window × generation`, and what the
catalog knows of a part (`prism-part/src/partition.rs` and `tenant.rs`).
-/

namespace Prism

inductive Bucket where
  | dedicated (index : Nat)
  | shared (index : Nat)
  deriving DecidableEq, Repr

namespace Bucket

def index : Bucket → Nat
  | .dedicated i => i
  | .shared i => i

def variant : Bucket → Nat
  | .dedicated _ => 0
  | .shared _ => 1

instance : Ord Bucket := ⟨compareLex (compareOn variant) (compareOn index)⟩

instance : Std.TransOrd Bucket :=
  inferInstanceAs (Std.TransCmp (compareLex (compareOn variant) (compareOn index)))

instance : Std.LawfulEqOrd Bucket where
  eq_of_compare {a b} same := by
    obtain ⟨variants, indices⟩ := compareLex_eq_eq.mp same
    have variants : a.variant = b.variant := Std.LawfulEqOrd.eq_of_compare variants
    have indices : a.index = b.index := Std.LawfulEqOrd.eq_of_compare indices
    cases a <;> cases b <;> simp_all [variant, index]

end Bucket

structure PartitionScheme where
  buckets : Nat
  timeWindowMs : Int
  dedicated : BTreeMap String Nat
  deriving DecidableEq

structure PartitionKey where
  bucket : Bucket
  window : Int
  generation : String
  deriving DecidableEq, Repr

namespace PartitionKey

instance : Ord PartitionKey :=
  ⟨compareLex (compareOn bucket) (compareLex (compareOn window) (compareOn generation))⟩

instance : Std.TransOrd PartitionKey :=
  inferInstanceAs (Std.TransCmp
    (compareLex (compareOn bucket) (compareLex (compareOn window) (compareOn generation))))

instance : Std.LawfulEqOrd PartitionKey where
  eq_of_compare {a b} same := by
    obtain ⟨buckets, rest⟩ := compareLex_eq_eq.mp same
    obtain ⟨windows, generations⟩ := compareLex_eq_eq.mp rest
    have buckets : a.bucket = b.bucket := Std.LawfulEqOrd.eq_of_compare buckets
    have windows : a.window = b.window := Std.LawfulEqOrd.eq_of_compare windows
    have generations : a.generation = b.generation := Std.LawfulEqOrd.eq_of_compare generations
    cases a; cases b; simp_all

end PartitionKey

namespace PartitionScheme

variable (scheme : PartitionScheme)

def bucketOf (tenant : String) : Bucket :=
  match scheme.dedicated[tenant]? with
  | some i => .dedicated i
  | none => .shared (Bytes.ofLe ((sha256 (utf8 tenant)).take 4) % scheme.buckets)

/-- The time window an event belongs to, keyed on `event_time`. -/
def windowOf (eventTime : Int) : Int :=
  wrapI64 (eventTime / scheme.timeWindowMs * scheme.timeWindowMs)

def keyOf (generation : String) (e : Event) : PartitionKey :=
  ⟨scheme.bucketOf e.tenantId, scheme.windowOf e.eventTime, generation⟩

def bucketOrdinal : Bucket → Nat
  | .shared n => n
  | .dedicated i => scheme.buckets + i

end PartitionScheme

/-! ### Tenant handles -/

structure TenantTokenizer where
  key : Bytes
  deriving DecidableEq, Repr

/-- `prism-tenant-token-v1` and a zero byte. -/
def tenantTokenDomain : Bytes := utf8 "prism-tenant-token-v1" ++ [0]

/-- The keyed equality handle of a tenant, in hexadecimal. -/
def TenantTokenizer.token (t : TenantTokenizer) (tenant : String) : String :=
  hex ((hmacSha256 t.key (tenantTokenDomain ++ utf8 tenant)).take 16)

/-! ### Catalog entries -/

/-- What the catalog knows about a part: enough to prune it without opening it. -/
structure PartRef where
  partId : String
  partition : PartitionKey
  rows : Nat
  tenants : List String
  timeMin : Int
  timeMax : Int
  deriving DecidableEq, Repr

def PartRef.validate (r : PartRef) : Result Unit :=
  if r.partId.isEmpty then .error (.corrupt "catalog part entry has no part id")
  else if r.timeMin > r.timeMax then
    .error (.corrupt
      s!"catalog entry for part {r.partId} has time_min {r.timeMin} > time_max {r.timeMax}")
  else if r.tenants.isEmpty then
    .error (.corrupt <| s!"catalog entry for part {r.partId} names no tenants; it could never " ++
      "be pruned in or out")
  else if r.partition.bucket.variant = 0 ∧ r.tenants.length > 1 then
    .error (.corrupt <| s!"part {r.partId} is in a DEDICATED bucket but names " ++
      s!"{r.tenants.length} tenants; a dedicated bucket that holds two tenants is not " ++
      "dedicated, and every isolation claim resting on it is false")
  else .ok ()

end Prism
