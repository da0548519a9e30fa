import Prism.Engine.Drift

/-!
The operations of an engine that commit to the catalog, as one type. Every one of them reads the
current snapshot and commits on it at most once.
-/

namespace Prism

open CrashLogic

inductive Operation where
  | ingest (events : List Event) (appliedWalRecord : Option Nat) (preflightModel : Bool)
  | delete (eventIds : List String)
  | merge (free : Option Nat)
  | mergeTiered (free : Option Nat)
  | rollback (toId : SnapshotId)
  | reembed (newVersion : String)
  | baselineBuild (env : BaselineEnv) (tenant generationId : String)
  | create (modelVersion : Option String)
  | promote (genId : String)
  | canary (genId : String) (maxPartitions : Nat)
  | migrate (genId : String) (maxPartitions : Option Nat)
  | retire (genId : String)
  | bridge (fromSpace toSpace validation : String)
  | redact (beforeMs : Int) (reason : String)

/-- The operation as this engine runs it at `nowMs`; of its report only that there is one. -/
def Operation.prog (engine : Engine) (nowMs : Int) : Operation → Io Unit
  | .ingest events appliedWalRecord preflightModel => do
    let _ ← engine.ingestInner events nowMs appliedWalRecord preflightModel
  | .delete eventIds => do let _ ← Engine.delete eventIds nowMs
  | .merge free => do let _ ← engine.merge free nowMs
  | .mergeTiered free => do let _ ← engine.mergeTiered free nowMs
  | .rollback toId => do let _ ← Engine.rollback toId nowMs
  | .reembed newVersion => do let _ ← engine.reembed newVersion nowMs
  | .baselineBuild env tenant generationId => do
    let _ ← engine.baselineBuild env tenant generationId nowMs
  | .create modelVersion => do let _ ← engine.generationCreate modelVersion nowMs
  | .promote genId => do let _ ← Engine.generationPromote genId nowMs
  | .canary genId maxPartitions => do let _ ← engine.generationCanary genId maxPartitions nowMs
  | .migrate genId maxPartitions => do let _ ← engine.generationMigrate genId maxPartitions nowMs
  | .retire genId => do let _ ← Engine.generationRetire genId nowMs
  | .bridge fromSpace toSpace validation => do
    let _ ← Engine.bridgeDeclare fromSpace toSpace validation nowMs
  | .redact beforeMs reason => do let _ ← engine.redactBodies beforeMs reason nowMs

end Prism
