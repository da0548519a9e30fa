import Prism.Engine.World

/-!
Write ownership by epoch, request by request (`storage/ownership.rs`, the compare-and-swap of
`storage/object.rs` and `Engine::writer_id`). `Engine.acquire` is the same on a store that nobody
else uses.
-/

namespace Prism

open CrashLogic

abbrev Owners := BTreeMap Nat String

abbrev OwnerProg := Prog Owners PrismError

inductive CasOutcome where
  | created
  | alreadyOurs
  | conflict
  deriving DecidableEq, Repr

namespace Ownership

variable (epoch : Nat)

def ownerKey : String := s!"catalog/OWNER-{zeroPadded 20 epoch}"

/-- The conditional create. A request that fails may have taken effect. -/
def putIfAbsent (writerId : String) : OwnerProg Bool :=
  Prog.update deviceError (fun owners => !owners.contains epoch) (·.insertIfNew epoch writerId)

def get : OwnerProg String :=
  Prog.read deviceError fun owners =>
    match owners[epoch]? with
    | some id => .ok id
    | none => .error (.notFound s!"object `{ownerKey epoch}` does not exist")

def outcomeOf (existing writerId : String) : CasOutcome :=
  if existing = writerId then .alreadyOurs else .conflict

def readBack (writerId : String) : OwnerProg CasOutcome := do
  let existing ← get epoch
  return outcomeOf existing writerId

/-- Create the object of an epoch. A create that was refused or that failed is resolved by the
payload that is there; one that left nothing is tried once more. -/
def casPublish (writerId : String) : OwnerProg CasOutcome := do
  match ← (putIfAbsent epoch writerId).attempt with
  | .ok true => return .created
  | .ok false => readBack epoch writerId
  | .error (.io msg) =>
    match ← (get epoch).attempt with
    | .ok existing => return outcomeOf existing writerId
    | .error (.notFound _) =>
      match ← (putIfAbsent epoch writerId).attempt with
      | .ok true => return .created
      | .ok false => readBack epoch writerId
      | .error _ => Prog.throw (.io <| s!"CAS publish of `{ownerKey epoch}` failed ambiguously " ++
          s!"and could not be resolved: {msg}")
    | .error e => Prog.throw e
  | .error e => Prog.throw e

def highestEpoch : OwnerProg Nat :=
  Prog.read deviceError fun owners => .ok (Engine.highestEpoch owners)

/-- The epoch above the highest one; the addition saturates. -/
def nextEpoch (highest : Nat) : Nat := min (highest + 1) (2 ^ 64 - 1)

/-- Take the next epoch, again above the new highest one as long as another writer takes it first. A
writer that has used up its rounds is one that stops there. -/
def acquire (writerId : String) : (rounds : Nat) → OwnerProg Nat
  | 0 => Prog.halt
  | rounds + 1 => do
    let next := nextEpoch (← highestEpoch)
    match ← casPublish next writerId with
    | .created => return next
    | .alreadyOurs => return next
    | .conflict => acquire writerId rounds

end Ownership

/-- Where an engine was created. The nonce counts the engines of a process. -/
structure Spawn where
  host : String
  pid : Nat
  nonce : Nat
  deriving DecidableEq, Repr

def Spawn.writerId (s : Spawn) : String := s!"{s.pid}-{s.nonce}"

end Prism
