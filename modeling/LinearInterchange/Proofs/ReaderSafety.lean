import LinearInterchange.Proofs.ExchangeReader
import LinearInterchange.Proofs.FlatZincReader
import LinearInterchange.Proofs.KnapsackReader
import LinearInterchange.Proofs.LpReader
import LinearInterchange.Proofs.MpsReader

/-!
# Readers are safe

Whatever the format, its settings, the place where the reader stands and the bytes of the stream: an
instance that a reader returns is sound, and an error that it returns tells of the stream.  None of
the things that the readers take for granted fails to hold, with one exception.  The items of a
knapsack are numbered from one and the numbers are ids, so a knapsack with more items than there are
ids has no instance.
-/

namespace LinearInterchange

open Text

namespace InputFormat

variable {input : InputStream}

/-- The next entry of the stream is a knapsack with more items than there are ids. -/
def Exceeds (f : InputFormat) (input : InputStream) : Prop :=
  f = .knapsack ∧ ∃ k c input', Knapsack.decodeNext input = (.ok (some k, c), input') ∧
    Var.maxId.toNat < k.items.length

/-- The only instance of a stream is sound if the format makes sure that it is. -/
lemma single_settles {r : Except ReadError Instance × InputStream}
    (h : Settles ReadError.IsFounded Instance.Sound r.1) :
    Settles ReadError.IsFounded (fun o => ∀ inst ∈ o.1, inst.Sound) (decode.single r).1 := by
  refine Settles.map h fun inst hinst => ?_
  rintro inst' ⟨⟩
  exact hinst

/-- The next knapsack of a stream is a sound instance, it is refused for what stands in it, or it
has too many items. -/
lemma knapsack_settles (input : InputStream) :
    Settles (fun e => e.IsFounded ∨ knapsack.Exceeds input) (fun o => ∀ inst ∈ o.1, inst.Sound)
      (knapsack.decode input).1 := by
  have hnext := (Knapsack.reading_decodeNext input).settles
  simp only [decode]
  split
  next e input' heq => exact .inl (hnext.of_error (congrArg Prod.fst heq))
  next c input' heq => rintro inst ⟨⟩
  next k c input' heq =>
    have hname := hnext.of_ok (congrArg Prod.fst heq) k rfl
    cases hinst : k.toInstance with
    | error a =>
      -- the numbers of the items are not all ids
      refine .inr ⟨rfl, k, c, input', heq, Nat.lt_of_not_le fun hle => ?_⟩
      obtain ⟨inst, hok⟩ := Knapsack.exists_toInstance_iff.2 hle
      rw [hok] at hinst
      cases hinst
    | ok inst =>
      rintro inst' ⟨⟩
      exact Knapsack.sound_toInstance hname.word.isTitle hinst

/-- What is decoded from a stream is sound, or it is refused for what stands there, unless it has
too many items. -/
lemma decode_settles (f : InputFormat) (input : InputStream) :
    Settles (fun e => e.IsFounded ∨ f.Exceeds input) (fun o => ∀ inst ∈ o.1, inst.Sound)
      (f.decode input).1 := by
  have hsingle : ∀ r, Settles ReadError.IsFounded Instance.Sound r.1 →
      Settles (fun e => e.IsFounded ∨ f.Exceeds input) (fun o => ∀ inst ∈ o.1, inst.Sound)
        (decode.single r).1 :=
    fun r h => (single_settles h).imp (fun _ he => .inl he) fun _ ho => ho
  cases f with
  | mps settings => exact hsingle _ (Mps.reading_decode settings input).settles
  | lp settings => exact hsingle _ (Lp.reading_decode settings input).settles
  | knapsack => exact knapsack_settles input
  | flatZinc settings => exact hsingle _ (FlatZinc.reading_decode settings input).settles
  | exchange => exact hsingle _ (Exchange.reading_decode input).settles

end InputFormat

namespace Reader

/-- **Readers are safe.**  An instance that a reader returns is sound.  An error that it returns is
a failure of the system or refuses what stands on a line, unless a knapsack has more items than
there are ids.  In the arguments of an annotation, which are skipped without an error of their own,
no bracket is closed that was not opened. -/
theorem next_safe (r : Reader) (input : InputStream) :
    Settles (fun e => e.IsFounded ∨ r.format.Exceeds input) (fun o => ∀ inst ∈ o, inst.Sound)
      (r.next input).1 ∧
    ∀ cs : List Char, (cs.dropWhile Parser.isLayout).head? = some '(' →
      ∃ rest, FlatZinc.afterBrackets 0 (cs.dropWhile Parser.isLayout) = .ok rest := by
  refine ⟨?_, fun cs hcs => FlatZinc.exists_afterBrackets hcs⟩
  have hdecode := r.format.decode_settles input
  unfold next
  split
  · rintro inst ⟨⟩
  · split
    next e input' heq => exact hdecode.of_error (congrArg Prod.fst heq)
    next inst cursor input' heq => exact hdecode.of_ok (congrArg Prod.fst heq)

end Reader

end LinearInterchange
