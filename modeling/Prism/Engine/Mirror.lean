import Prism.Engine.Ingestor

/-!
The catalog mirror on the object store (`prism-engine/src/storage/mirror.rs`).
-/

namespace Prism

open CrashLogic

namespace Engine

def remirrorCurrent : Io Unit := do
  let snap ← snapshot
  mirrorSnapshot snap

end Engine

end Prism
