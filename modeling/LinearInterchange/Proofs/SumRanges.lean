import LinearInterchange.Proofs.Solutions
import Mathlib.Order.Bounds.Image

/-!
# The values of a sum over domains

`Term.valuesOver` is the set of the values that a sum of terms takes when its variables stay within
their domains.  If no domain is empty, then one term takes all products of its coefficient with a
value of the domain (`valuesOver_singleton`), and a sum of terms over different variables takes all
sums of their values (`valuesOver_concat`).  So the least and the greatest value of such a sum,
which `Term.Spans` speaks of, are the sums of those of its terms. -/

namespace LinearInterchange

variable {vars : List Variable}

/-- Any value of the domain of a variable is its value in some assignment within all domains. -/
lemma exists_inDomains (hids : (vars.map (·.var)).Nodup) (hdom : ∀ x ∈ vars, x.domain.Nonempty)
    {x : Variable} (hx : x ∈ vars) {n : ℤ} (hn : x.domain.Includes n) :
    ∃ value : Var → ℤ, InDomains value vars ∧ value x.var = n := by
  -- all other variables have the least values of their domains
  let least : Var → ℤ := fun v => ((vars.find? (·.var = v)).map (·.domain.least.toInt)).getD 0
  refine ⟨Function.update least x.var n, ?_, Function.update_self _ _ _⟩
  intro z hz
  by_cases hzx : z.var = x.var
  · obtain rfl := List.inj_on_of_nodup_map hids hz hx hzx
    rwa [Function.update_self]
  · rw [Function.update_of_ne hzx]
    have hsome : (vars.find? (·.var = z.var)).isSome = true :=
      List.find?_isSome.2 ⟨z, hz, by simp⟩
    obtain ⟨y, hy⟩ := Option.isSome_iff_exists.1 hsome
    have hyz : y = z := List.inj_on_of_nodup_map hids (List.mem_of_find?_eq_some hy) hz
      (by simpa using List.find?_some hy)
    have hleast : least z.var = z.domain.least.toInt := by
      simp only [least, hy, hyz, Option.map_some, Option.getD_some]
    rw [hleast]
    exact ⟨le_rfl, hdom z hz⟩

namespace Term

variable {ts : List Term} {t : Term} {lo hi lo' hi' : ℚ}

/-- The values of a sum of terms when the variables stay within their domains. -/
def valuesOver (vars : List Variable) (ts : List Term) : Set ℚ :=
  {q | ∃ value, InDomains value vars ∧ sumAt value ts = q}

/-- The numbers are the least and the greatest value of a sum of terms. -/
structure Spans (vars : List Variable) (ts : List Term) (lo hi : ℚ) : Prop where
  /-- The first number is the least value. -/
  least : IsLeast (valuesOver vars ts) lo
  /-- The second number is the greatest value. -/
  greatest : IsGreatest (valuesOver vars ts) hi

/-- The values of one term are the products with the values of the domain. -/
lemma valuesOver_singleton (hids : (vars.map (·.var)).Nodup)
    (hdom : ∀ x ∈ vars, x.domain.Nonempty) {x : Variable} (hx : x ∈ vars) (hxt : x.var = t.var) :
    valuesOver vars [t] = {q | ∃ n, x.domain.Includes n ∧ t.coeff.val * n = q} := by
  ext q
  constructor
  · rintro ⟨value, hin, rfl⟩
    exact ⟨value x.var, hin x hx, by rw [sumAt_cons, sumAt_nil, add_zero, hxt]⟩
  · rintro ⟨n, hn, rfl⟩
    obtain ⟨value, hin, rfl⟩ := exists_inDomains hids hdom hx hn
    exact ⟨value, hin, by rw [sumAt_cons, sumAt_nil, add_zero, hxt]⟩

/-- One term ranges between its values at the ends of the domain. -/
lemma spans_singleton (hids : (vars.map (·.var)).Nodup) (hdom : ∀ x ∈ vars, x.domain.Nonempty)
    {x : Variable} (hx : x ∈ vars) (hxt : x.var = t.var) :
    Spans vars [t] (t.lowest x.domain) (t.highest x.domain) := by
  have hleast : x.domain.Includes x.domain.least.toInt := ⟨le_rfl, hdom x hx⟩
  have hgreatest : x.domain.Includes x.domain.greatest.toInt := ⟨hdom x hx, le_rfl⟩
  constructor <;> rw [valuesOver_singleton hids hdom hx hxt]
  case least =>
    refine ⟨⟨_, ?_, rfl⟩, ?_⟩
    · split
      · exact hgreatest
      · exact hleast
    · rintro q ⟨n, hn, rfl⟩
      exact (t.lowest_le_highest hn).1
  case greatest =>
    refine ⟨⟨_, ?_, rfl⟩, ?_⟩
    · split
      · exact hleast
      · exact hgreatest
    · rintro q ⟨n, hn, rfl⟩
      exact (t.lowest_le_highest hn).2

/-- The value of a term after a sum is added to that of the sum. -/
lemma sumAt_concat {value : Var → ℤ} (ts : List Term) (t : Term) :
    sumAt value (ts ++ [t]) = sumAt value ts + sumAt value [t] := by
  rw [sumAt, List.map_append, List.sum_append]
  rfl

/-- A term over another variable takes its values whatever the values of the sum before it. -/
lemma valuesOver_concat (ht : t.var ∉ ts.map (·.var)) :
    valuesOver vars (ts ++ [t]) =
      Set.image2 (· + ·) (valuesOver vars ts) (valuesOver vars [t]) := by
  ext q
  constructor
  · rintro ⟨value, hin, rfl⟩
    exact ⟨_, ⟨value, hin, rfl⟩, _, ⟨value, hin, rfl⟩, (sumAt_concat ts t).symm⟩
  · rintro ⟨_, ⟨value, hin, rfl⟩, _, ⟨other, hother, rfl⟩, rfl⟩
    refine ⟨Function.update value t.var (other t.var), ?_, ?_⟩
    · intro x hx
      by_cases hxt : x.var = t.var
      · rw [hxt, Function.update_self, ← hxt]
        exact hother x hx
      · rw [Function.update_of_ne hxt]
        exact hin x hx
    · have hsum : sumAt (Function.update value t.var (other t.var)) ts = sumAt value ts := by
        refine sumAt_congr fun u hu => Function.update_of_ne (fun hut : u.var = t.var => ?_) _ _
        exact ht (hut ▸ List.mem_map_of_mem hu)
      simp only [sumAt_concat, hsum, sumAt_cons, sumAt_nil, Function.update_self]

/-- The ends of a sum and those of one more term add up. -/
lemma Spans.concat (h : Spans vars ts lo hi) (h' : Spans vars [t] lo' hi')
    (ht : t.var ∉ ts.map (·.var)) : Spans vars (ts ++ [t]) (lo + lo') (hi + hi') := by
  have hleft : ∀ b : ℚ, Monotone (Function.swap (· + ·) b) := fun b _ _ hle =>
    add_le_add_left hle b
  have hright : ∀ a : ℚ, Monotone (a + ·) := fun a _ _ hle => add_le_add_right hle a
  constructor <;> rw [valuesOver_concat ht]
  case least => exact h.least.image2 hleft hright h'.least
  case greatest => exact h.greatest.image2 hleft hright h'.greatest

end Term

end LinearInterchange
