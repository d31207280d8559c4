import OlapCalc.Cube.Builder

/-!
Two small reference cubes.

`sales` has measures `Sales` and `Units` over `Time` (Year, Quarter), `Store` (State, City) and
`Product` (Category); `items` has measures `Y` and `X` over a single `Item` level. Both are
built through the builder, so their member order is declaration order.
-/

namespace OlapCalc.Presets

/-- Runs builder steps that cannot fail on these fixed inputs. -/
def steps (b : CubeBuilder) (fs : List (CubeBuilder → Except OlapError CubeBuilder)) :
    Except OlapError CubeBuilder :=
  fs.foldlM (fun b f => f b) b

/-- Declares members along a path. -/
def members (h : Nat) (path : List String) (b : CubeBuilder) : Except OlapError CubeBuilder :=
  (b.addMembers h path).map (·.1)

/-- Adds a fact, failing when the builder refuses it. -/
def fact (coordinate : List (Nat × List String)) (values : List (String × Float))
    (b : CubeBuilder) : Except OlapError CubeBuilder :=
  let r := b.addFact coordinate values
  r.2.map fun _ => r.1

/-- The sales cube. -/
def sales : Except OlapError Cube := do
  let b : CubeBuilder := {}
  let b := (b.addMeasure "Sales" .sum).addMeasure "Units" .sum
  let (b, time) := b.addHierarchy "Time" ["Year", "Quarter"]
  let (b, store) := b.addHierarchy "Store" ["State", "City"]
  let (b, product) := b.addHierarchy "Product" ["Category"]
  let quarters := ["Q1", "Q2", "Q3", "Q4"]
  let b ← steps b (["2023", "2024"].flatMap fun y => quarters.map fun q => members time [y, q])
  let b ← steps b ([["CA", "SF"], ["CA", "LA"], ["WA", "Seattle"], ["OR", "Portland"]].map
    (members store ·))
  let b ← steps b (["Drink", "Food", "NonFood", "Toys"].map fun c => members product [c])
  let fact (y q state city category : String) (values : List (String × Float)) :=
    fun (b : CubeBuilder) =>
      Presets.fact [(time, [y, q]), (store, [state, city]), (product, [category])] values b
  let num (n : Nat) : Float := Binary64.ofNat n
  let b ← steps b [
    fact "2024" "Q1" "CA" "SF" "Drink" [("Sales", num 10), ("Units", num 1)],
    fact "2024" "Q1" "CA" "LA" "Food" [("Sales", num 20), ("Units", num 2)],
    fact "2024" "Q2" "WA" "Seattle" "Drink" [("Sales", num 30), ("Units", num 3)],
    fact "2023" "Q1" "CA" "SF" "Food" [("Sales", num 40), ("Units", num 4)],
    fact "2023" "Q3" "WA" "Seattle" "NonFood" [("Sales", num 50)],
    fact "2024" "Q2" "CA" "SF" "Drink" [("Units", num 6)]]
  b.build

/-- The items cube. -/
def items : Except OlapError Cube := do
  let b : CubeBuilder := {}
  let b := (b.addMeasure "Y" .sum).addMeasure "X" .sum
  let (b, item) := b.addHierarchy "Item" ["Item"]
  let num (n : Nat) : Float := Binary64.ofNat n
  let fact (name : String) (values : List (String × Float)) :=
    Presets.fact [(item, [name])] values
  let b ← steps b [
    fact "A" [("Y", num 2), ("X", num 1)],
    fact "B" [("X", num 2)],
    fact "C" [("Y", num 4), ("X", num 3)],
    fact "D" [("Y", num 6), ("X", num 4)]]
  b.build

end OlapCalc.Presets
