import LinearInterchange.Variable

/-! # Counters of variable ids

A counter hands out variable ids in increasing order. It only ever moves up, so an id that it
hands out is above all ids handed out or marked before. -/

namespace LinearInterchange

/-- The lowest id that is not in use. -/
structure IdCounter where
  next : UInt32 := 0
  deriving DecidableEq

namespace IdCounter

/-- The counter whose next id is that of the given variable. -/
def startingAt (v : Var) : IdCounter := ⟨v.id⟩

/-- Uses up the next id. There is none left when the counter has passed the highest id; the
counter then stays as it is. -/
def newVar (c : IdCounter) : Option Var × IdCounter :=
  match Var.ofId c.next with
  | .ok v => (some v, ⟨c.next + 1⟩)
  | .error _ => (none, c)

/-- Moves the counter up to `n`, unless it is there already; tells whether it moved. -/
def raise (n : UInt32) (c : IdCounter) : Bool × IdCounter :=
  if c.next < n then (true, ⟨n⟩) else (false, c)

/-- Moves the counter past a variable that is in use; tells whether it moved. -/
def mark (v : Var) (c : IdCounter) : Bool × IdCounter :=
  c.raise (v.id + 1)

/-- The number of ids up to the counter. -/
def used (c : IdCounter) : UInt32 := c.next

/-- The highest variable in use. -/
def last? (c : IdCounter) : Option Var :=
  if c.next = 0 then none else (Var.ofId (c.next - 1)).toOption

end IdCounter

end LinearInterchange
