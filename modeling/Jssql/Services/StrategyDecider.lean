import Jssql.Types

/-!
`StrategyDecider`: whether a condition names one key by equality.
-/
namespace Jssql.StrategyDecider
open Foundation Jssql

def isUniqueEqualityLookup (optWhere : Option WhereNode) (uniqueColName : Bytes) : Bool :=
  match optWhere with
  | some w => w.condition.colName == uniqueColName && w.condition.cmp == .eq
  | none => false

end Jssql.StrategyDecider
