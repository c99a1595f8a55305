import LinearInterchange.Format.Knapsack.Basic

/-! # Generating knapsacks

Profits and weights are drawn from ranges of words by a sampler that is started from a seed. Any
sampler will do that stays in the ranges. -/

namespace LinearInterchange.Knapsack

/-- How the capacity of a generated knapsack is chosen. -/
inductive CapacityRule where
  | fixed (capacity : Int64)
  /-- The total weight divided by a number. -/
  | fraction (divisor : Int64)
  deriving DecidableEq

/-- A range of words, with both ends included. -/
structure WordRange where
  least : Int64
  greatest : Int64
  deriving DecidableEq

/-- The word is in the range. -/
def WordRange.Holds (r : WordRange) (w : Int64) : Prop :=
  r.least ≤ w ∧ w ≤ r.greatest

/-- A source of random words. It is started from a seed, and it stays in the ranges that hold any
words. -/
structure Sampler where
  State : Type
  start (seed : Nat) : State
  draw (r : WordRange) (state : State) : Int64 × State
  holds_draw (r : WordRange) (state : State) (h : r.least ≤ r.greatest) : r.Holds (draw r state).1

/-- Draws a word of a range with the standard generator. -/
def WordRange.drawStandard (r : WordRange) (gen : StdGen) : Int64 × StdGen :=
  let (n, gen) := randNat gen 0 (r.greatest.toInt - r.least.toInt).toNat
  (Int64.ofInt (r.least.toInt + n), gen)

theorem fst_randNat_le (gen : StdGen) (n : Nat) : (randNat gen 0 n).1 ≤ n := by
  simp only [randNat, Nat.not_lt_zero, if_false, Nat.zero_add, Nat.sub_zero]
  exact Nat.le_of_lt_succ (Nat.mod_lt _ (Nat.succ_pos n))

theorem WordRange.holds_drawStandard (r : WordRange) (gen : StdGen) (h : r.least ≤ r.greatest) :
    r.Holds (r.drawStandard gen).1 := by
  have hle := Int64.le_iff_toInt_le.1 h
  have hleast := fitsWord_toInt r.least
  have hgreatest := fitsWord_toInt r.greatest
  unfold FitsWord at hleast hgreatest
  have hn := fst_randNat_le gen (r.greatest.toInt - r.least.toInt).toNat
  have hdraw : (r.drawStandard gen).1 = Int64.ofInt
      (r.least.toInt + (randNat gen 0 (r.greatest.toInt - r.least.toInt).toNat).1) := rfl
  generalize (randNat gen 0 (r.greatest.toInt - r.least.toInt).toNat).1 = n at hn hdraw
  rw [Holds, Int64.le_iff_toInt_le, Int64.le_iff_toInt_le, hdraw,
    Int64.toInt_ofInt_of_le (by omega) (by omega)]
  omega

/-- The sampler of the generator program. -/
def Sampler.standard : Sampler where
  State := StdGen
  start seed := mkStdGen seed
  draw := WordRange.drawStandard
  holds_draw := WordRange.holds_drawStandard

/-- The parameters of generated knapsacks. -/
structure Generator where
  items : Nat := 20
  profit : WordRange := ⟨1, 40⟩
  weight : WordRange := ⟨1, 40⟩
  capacity : CapacityRule := .fraction 2
  /-- The text before the number in the names. -/
  stem : String := "knap"
  deriving DecidableEq

namespace Generator

variable (sampler : Sampler)

/-- Draws items one after another. -/
def drawItems (g : Generator) : Nat → sampler.State → List KnapsackItem × sampler.State
  | 0, state => ([], state)
  | n + 1, state =>
    let (profit, state) := sampler.draw g.profit state
    let (weight, state) := sampler.draw g.weight state
    let (items, state) := g.drawItems n state
    (⟨profit, weight⟩ :: items, state)

/-- The capacity for items. There is none if the divisor is zero or the quotient is out of
range. -/
def capacityFor (g : Generator) (items : List KnapsackItem) : Option Int64 :=
  match g.capacity with
  | .fixed c => some c
  | .fraction d =>
    let total := items.foldl (fun total item => total + item.weight) (0 : Int64)
    if d = 0 then none else word? (total.toInt.tdiv d.toInt)

/-- Generates knapsacks with the numbers from `first` on, unless a capacity is missing. -/
def generateFrom (g : Generator) (first : Nat) : Nat → sampler.State → Option (List Knapsack)
  | 0, _ => some []
  | count + 1, state => do
    let (items, state) := g.drawItems sampler g.items state
    let capacity ← g.capacityFor items
    let rest ← g.generateFrom (first + 1) count state
    return ⟨g.stem ++ toString first, capacity, items⟩ :: rest

/-- Generates a number of knapsacks with a sampler. They depend on nothing but the parameters and
the seed. -/
def generateWith (g : Generator) (count seed : Nat) : Option (List Knapsack) :=
  g.generateFrom sampler 1 count (sampler.start seed)

/-- Generates a number of knapsacks with the sampler of the generator program. -/
def generate (g : Generator) (count seed : Nat) : Option (List Knapsack) :=
  g.generateWith .standard count seed

/-- A positive divisor makes a capacity for any items. -/
theorem isSome_capacityFor {g : Generator} (h : ∀ d, g.capacity = .fraction d → 0 < d)
    (items : List KnapsackItem) : (g.capacityFor items).isSome := by
  unfold capacityFor
  split
  · rfl
  next d heq =>
    have hd := Int64.lt_iff_toInt_lt.1 (h d heq)
    have hne : d ≠ 0 := fun h0 => by simp [h0] at hd
    simp [hne, word?, fitsWord_tdiv (fitsWord_toInt _) hd]

theorem isSome_generateFrom {g : Generator} (h : ∀ d, g.capacity = .fraction d → 0 < d)
    (first count : Nat) (state : sampler.State) :
    (g.generateFrom sampler first count state).isSome := by
  induction count generalizing first state with
  | zero => rfl
  | succ count ih =>
    have hitems := isSome_capacityFor h (g.drawItems sampler g.items state).1
    obtain ⟨capacity, hcapacity⟩ := Option.isSome_iff_exists.1 hitems
    have hcount := ih (first + 1) (g.drawItems sampler g.items state).2
    obtain ⟨rest, hrest⟩ := Option.isSome_iff_exists.1 hcount
    simp [generateFrom, hcapacity, hrest]

end Generator

end LinearInterchange.Knapsack
