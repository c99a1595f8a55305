import LinearInterchange.Proofs.TableColumns
import Mathlib.Algebra.Order.Field.Rat
import Mathlib.Data.Rat.Lemmas

/-!
# What bounds say

A bound compares a column, perhaps with a sign before it, with a number or an infinity.  Read as an
inequality it says which values the column may have; the side that it does not mention keeps the
bound that it had (`Admits`).

The readers keep less than that.  They drop a sign before the column, and an infinity is kept as no
bound at all, whatever its sign and whatever side it stands on.  What they do keep is itself a list
of bounds (`bare`), and for a bound without such a sign and with infinities that bound nothing it
says the same as the bound does (`admits_bare`).
-/

namespace LinearInterchange

/-- The comparison as it reads from the right to the left. -/
def Relation.flip : Relation → Relation
  | le => ge
  | eq => eq
  | ge => le

namespace Table

/-! ## Limits -/

/-- What a column is compared with: a number, or an infinity that is below everything if `minus`
holds and else above everything. -/
inductive Endpoint where
  | finite (q : ℚ)
  | infinite (minus : Bool)

namespace Endpoint

/-- The endpoint with its sign changed if `minus` holds. -/
def signed (minus : Bool) : Endpoint → Endpoint
  | finite q => finite (if minus then -q else q)
  | infinite m => infinite (minus != m)

/-- The number is at most the endpoint. -/
def IsAbove (q : ℚ) : Endpoint → Prop
  | finite r => q ≤ r
  | infinite minus => minus = false

/-- The number is at least the endpoint. -/
def IsBelow (q : ℚ) : Endpoint → Prop
  | finite r => r ≤ q
  | infinite minus => minus = true

/-- The number compares with the endpoint. -/
def Relates (l : Endpoint) (r : Relation) (q : ℚ) : Prop :=
  match r with
  | .le => l.IsAbove q
  | .ge => l.IsBelow q
  | .eq => l.IsAbove q ∧ l.IsBelow q

/-- The endpoint with an infinity turned to where it bounds nothing. -/
def outward (r : Relation) : Endpoint → Endpoint
  | finite q => finite q
  | infinite _ => infinite (r = .ge)

/-- The endpoint is kept as the bound of a column, or as none if it is infinite. -/
def IsKept (value : Option Coeff) : Endpoint → Prop
  | finite q => ∃ c, value = some c ∧ c.val = q
  | infinite _ => value = none

variable {l : Endpoint} {value : Option Coeff} {q : ℚ}

/-- An endpoint that is kept on the right bounds from above unless it is infinite. -/
lemma IsKept.isAbove_outward (h : l.IsKept value) :
    (l.outward .le).IsAbove q ↔ ∀ u ∈ value, q ≤ u.val := by
  cases l with
  | finite r =>
    obtain ⟨c, rfl, rfl⟩ := h
    simp [outward, IsAbove]
  | infinite minus =>
    obtain rfl : value = none := h
    simp [outward, IsAbove]

/-- An endpoint that is kept on the left bounds from below unless it is infinite. -/
lemma IsKept.isBelow_outward (h : l.IsKept value) :
    (l.outward .ge).IsBelow q ↔ ∀ u ∈ value, u.val ≤ q := by
  cases l with
  | finite r =>
    obtain ⟨c, rfl, rfl⟩ := h
    simp [outward, IsBelow]
  | infinite minus =>
    obtain rfl : value = none := h
    simp [outward, IsBelow]

end Endpoint

/-! ## Bounds -/

/-- A bound as it reads from the column: whether there is a minus before the column, the comparison,
and the endpoint. -/
structure Clause where
  minus : Bool
  rel : Relation
  endpoint : Endpoint

namespace Clause

/-- The value of the column makes the bound true. -/
def Holds (b : Clause) (q : ℚ) : Prop :=
  b.endpoint.Relates b.rel (if b.minus then -q else q)

/-- The comparison of the column without its sign. -/
def relation (b : Clause) : Relation :=
  if b.minus then b.rel.flip else b.rel

/-- The sign before the column is dropped, and infinities are turned to where they bound nothing. -/
def bare (b : Clause) : List Clause :=
  match b.rel with
  | .le => [⟨false, .le, b.endpoint.outward .le⟩]
  | .ge => [⟨false, .ge, b.endpoint.outward .ge⟩]
  | .eq => [⟨false, .ge, b.endpoint.outward .ge⟩, ⟨false, .le, b.endpoint.outward .le⟩]

/-- There is no minus before the column, and an infinity bounds nothing. -/
structure IsPlain (b : Clause) : Prop where
  unsigned : b.minus = false
  open_ : ∀ minus, b.endpoint = .infinite minus → b.rel = if minus then .ge else .le

end Clause

/-- The bounds of the column allow the value. -/
def Column.Allows (c : Column) (q : ℚ) : Prop :=
  (∀ l ∈ c.lower, l.val ≤ q) ∧ ∀ u ∈ c.upper, q ≤ u.val

/-- The value makes all bounds true, and it is allowed by the bounds that the column had on the
sides that they do not mention. -/
@[mk_iff]
structure Admits (bs : List Clause) (c : Column) (q : ℚ) : Prop where
  holds : ∀ b ∈ bs, b.Holds q
  lower : (∀ b ∈ bs, b.relation = .le) → ∀ l ∈ c.lower, l.val ≤ q
  upper : (∀ b ∈ bs, b.relation = .ge) → ∀ u ∈ c.upper, q ≤ u.val

variable {c c' : Column} {l : Endpoint} {value lower upper : Option Coeff} {r : Relation} {q : ℚ}

/-- Several bounds as they are read. -/
def bare (bs : List Clause) : List Clause :=
  bs.flatMap Clause.bare

/-- Something holds of bounds as they are read if it does for each of the bounds. -/
lemma forall_bare {P : Clause → Prop} {bs : List Clause} :
    (∀ b ∈ bare bs, P b) ↔ ∀ b ∈ bs, ∀ b' ∈ b.bare, P b' := by
  simp only [bare, List.mem_flatMap]
  exact ⟨fun h b hb b' hb' => h b' ⟨b, hb, hb'⟩, fun h b' ⟨b, hb, hb'⟩ => h b hb b' hb'⟩

namespace Clause.IsPlain

variable {b : Clause}

/-- A plain bound says the same as it is read. -/
lemma holds_iff (h : b.IsPlain) : (∀ b' ∈ b.bare, b'.Holds q) ↔ b.Holds q := by
  obtain ⟨minus, r, l⟩ := b
  obtain ⟨rfl, hopen⟩ := h
  cases l with
  | finite x => cases r <;> simp [Clause.bare, Holds, Endpoint.outward, Endpoint.Relates, and_comm]
  | infinite m =>
    have hrel := hopen m rfl
    cases m <;> cases r <;> simp_all [Clause.bare, Holds, Endpoint.outward, Endpoint.Relates,
      Endpoint.IsAbove, Endpoint.IsBelow]

/-- A plain bound is read on the sides that it mentions. -/
lemma relation_iff (h : b.IsPlain) (hr : r ≠ .eq) :
    (∀ b' ∈ b.bare, b'.relation = r) ↔ b.relation = r := by
  obtain ⟨minus, rel, l⟩ := b
  obtain ⟨rfl, -⟩ := h
  cases rel <;> cases r <;> simp_all [Clause.bare, relation]

end Clause.IsPlain

/-- **Plain bounds are read as they say.** -/
lemma admits_bare {bs : List Clause} (h : ∀ b ∈ bs, b.IsPlain) (c : Column) (q : ℚ) :
    Admits (bare bs) c q ↔ Admits bs c q := by
  have hholds : (∀ b ∈ bare bs, b.Holds q) ↔ ∀ b ∈ bs, b.Holds q :=
    forall_bare.trans (forall₂_congr fun b hb => (h b hb).holds_iff)
  have hside : ∀ r : Relation, r ≠ .eq →
      ((∀ b ∈ bare bs, b.relation = r) ↔ ∀ b ∈ bs, b.relation = r) := fun r hr =>
    forall_bare.trans (forall₂_congr fun b hb => (h b hb).relation_iff hr)
  constructor
  · rintro ⟨h₁, h₂, h₃⟩
    exact ⟨hholds.1 h₁, fun hb => h₂ ((hside .le nofun).2 hb),
      fun hb => h₃ ((hside .ge nofun).2 hb)⟩
  · rintro ⟨h₁, h₂, h₃⟩
    exact ⟨hholds.2 h₁, fun hb => h₂ ((hside .le nofun).1 hb),
      fun hb => h₃ ((hside .ge nofun).1 hb)⟩

/-! ## What is kept of a bound -/

/-- A column whose bounds are set on one side, or on both to the same, allows what the bound admits
as it is read. -/
lemma allows_of_side {b : Clause} (hvalue : b.endpoint.IsKept value)
    (hlower : c'.lower = if b.rel = .le then c.lower else value)
    (hupper : c'.upper = if b.rel = .ge then c.upper else value) :
    c'.Allows q ↔ Admits (bare [b]) c q := by
  have habove := hvalue.isAbove_outward (q := q)
  have hbelow := hvalue.isBelow_outward (q := q)
  obtain ⟨minus, r, l⟩ := b
  rw [Column.Allows, hlower, hupper, admits_iff]
  cases r with
  | le =>
    simp [bare, Clause.bare, Clause.Holds, Clause.relation, Endpoint.Relates, habove, and_comm]
  | ge => simp [bare, Clause.bare, Clause.Holds, Clause.relation, Endpoint.Relates, hbelow]
  | eq => simp [bare, Clause.bare, Clause.Holds, Clause.relation, Endpoint.Relates, habove, hbelow]

/-- A column whose bounds are set on both sides allows what the two bounds admit as they are
read. -/
lemma allows_of_sides {minus : Bool} {l u : Endpoint} (hlower : l.IsKept c'.lower)
    (hupper : u.IsKept c'.upper) :
    c'.Allows q ↔ Admits (bare [⟨minus, .ge, l⟩, ⟨minus, .le, u⟩]) c q := by
  have hbelow := hlower.isBelow_outward (q := q)
  have habove := hupper.isAbove_outward (q := q)
  rw [Column.Allows, ← hbelow, ← habove, admits_iff]
  simp [bare, Clause.bare, Clause.Holds, Clause.relation, Endpoint.Relates]

/-- The columns with that of a name changed to allow what bounds admit: as they are read, and so as
they say if they are plain. -/
def Columns.Bounded (cols : Columns) (name : String) (bs : List Clause) (cols' : Columns) : Prop :=
  ∃ n c c', cols.number? name = some n ∧ cols[n]? = some c ∧ cols' = cols.set n c' ∧
    c'.name = c.name ∧ c'.pos = c.pos ∧ (∀ q, c'.Allows q ↔ Admits (bare bs) c q) ∧
    ((∀ b ∈ bs, b.IsPlain) → ∀ q, c'.Allows q ↔ Admits bs c q)

/-- A change of a column that allows what bounds admit as they are read. -/
structure Enacts (f : Column → Column) (bs : List Clause) : Prop where
  keeps : Columns.Keeps f
  allows : ∀ c q, (f c).Allows q ↔ Admits (bare bs) c q

/-- A column that is changed so is bounded so. -/
lemma Enacts.bounded {f : Column → Column} {bs : List Clause} (h : Enacts f bs)
    {cols cols' : Columns} {name : String} {n : ℕ} (hn : cols.number? name = some n)
    (hupdate : cols.update n f = .ok cols') : cols.Bounded name bs cols' := by
  have hlt := Columns.number?_lt hn
  rw [Columns.update, if_pos hlt] at hupdate
  obtain rfl := Except.ok.inj hupdate
  exact ⟨n, cols[n], f cols[n], hn, List.getElem?_eq_getElem hlt, List.modify_eq_set_get f hlt,
    (h.keeps _).1, (h.keeps _).2, h.allows _,
    fun hplain q => (h.allows _ q).trans (admits_bare hplain _ q)⟩

end Table

end LinearInterchange
