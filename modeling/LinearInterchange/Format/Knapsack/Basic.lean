import LinearInterchange.Input.Position
import LinearInterchange.Instance.Basic

/-! # Knapsacks

A knapsack problem picks items of greatest total profit whose total weight stays within a
capacity. -/

namespace LinearInterchange

/-- An item with its profit and its weight. -/
structure KnapsackItem where
  profit : Int64
  weight : Int64
  deriving DecidableEq

/-- A knapsack problem. Its items are numbered from one. -/
structure Knapsack where
  name : String
  capacity : Int64
  items : List KnapsackItem
  deriving DecidableEq

namespace Knapsack

/-- The line that ends an entry of a stream. -/
def separator : String := "-----"

/-- The variable of the item with a given number, which is its id. -/
def itemVar (n : Nat) : Except Assumption Var :=
  if n < UInt32.size then (Var.ofId (UInt32.ofNat n)).mapError fun _ => .itemNumber
  else .error .itemNumber

/-- The items with their numbers, and with the variables that stand for picking them. -/
def numbered (k : Knapsack) : Except Assumption (List (KnapsackItem × Nat × Var)) :=
  (k.items.zipIdx 1).mapM fun (item, n) => return (item, n, ← itemVar n)

/-- The problem as an instance over Boolean variables `x1`, `x2`, …: the weights are bounded by the
capacity, the profits are maximised. There is none if there are more items than ids. -/
def toInstance (k : Knapsack) : Except Assumption Instance := do
  let items ← k.numbered
  let inst ← items.foldlM (fun inst (_, n, v) =>
    (inst.declareWithId v ("x" ++ toString n) .bool).mapError fun _ => .itemVariable)
    ({ name := some k.name } : Instance)
  let weights := items.map fun (item, _, v) => ⟨.ofWord item.weight, v⟩
  let inst ← (inst.addConstr ⟨weights, .le, .ofWord k.capacity⟩).mapError fun _ => .itemTerms
  let profits := items.map fun (item, _, v) => ⟨.ofWord item.profit, v⟩
  (inst.setObjective ⟨.maximize, profits⟩).mapError fun _ => .itemTerms

/-- The text of the problem as an entry of a stream: name, number of items, capacity, items, and
the separator followed by an empty line. -/
def render (k : Knapsack) : String :=
  let items := (k.items.zipIdx 1).map fun (item, n) =>
    toString n ++ "," ++ toString item.profit ++ "," ++ toString item.weight ++ ",0\n"
  k.name ++ "\nn " ++ toString k.items.length ++ "\nc " ++ toString k.capacity ++ "\n"
    ++ String.join items ++ separator ++ "\n\n"

end Knapsack

end LinearInterchange
