import LinearInterchange.Proofs.ReaderSafety

/-!
# Calls of readers

Whatever the format, a reader reads streams alike that agree in the bytes ahead and in the counts,
and a call moves the offset of the stream past the bytes that it takes unless the system fails.
Both come down to the lines that are read and the white space that is skipped.
-/

namespace LinearInterchange

open InputStream

namespace Knapsack

/-- The next entries are decoded alike, if there are any. -/
lemma uniform_decodeNext : Uniform decodeNext := by
  intro s t h
  unfold decodeNext
  split
  next s₁ hskip =>
    obtain ⟨t₁, hskip', hagrees⟩ := uniform_skipWhitespace.exists_eq h hskip
    rw [hskip']
    exact ⟨by rw [hagrees.cursor_eq], hagrees⟩
  next s₁ hskip =>
    obtain ⟨t₁, hskip', hagrees₁⟩ := uniform_skipWhitespace.exists_eq h hskip
    rw [hskip']
    split
    next e s₂ hentry =>
      obtain ⟨t₂, hentry', hagrees⟩ := uniform_decodeEntry.exists_eq hagrees₁ hentry
      simp only [hentry']
      exact ⟨True.intro, hagrees⟩
    next k s₂ hentry =>
      obtain ⟨t₂, hentry', hagrees₂⟩ := uniform_decodeEntry.exists_eq hagrees₁ hentry
      obtain ⟨hended, hagrees⟩ := uniform_skipWhitespace hagrees₂
      simp only [hentry', hended]
      exact ⟨by rw [hagrees.cursor_eq], hagrees⟩

end Knapsack

namespace InputFormat

variable {read : InputStream → Except ReadError Instance × InputStream}

/-! ## Streams that agree -/

/-- The only instances of streams are decoded alike. -/
lemma uniform_single (h : Uniform read) : Uniform fun s => decode.single (read s) := by
  intro s t hagrees
  obtain ⟨houtcome, hagrees'⟩ := h hagrees
  refine ⟨?_, hagrees'⟩
  show (read s).1.map _ = (read t).1.map _
  rw [houtcome, hagrees'.cursor_eq]

/-- The instances of knapsacks are decoded alike. -/
lemma uniform_knapsack : Uniform knapsack.decode := by
  intro s t h
  simp only [decode]
  split
  next e s' heq =>
    obtain ⟨t', heq', hagrees⟩ := Knapsack.uniform_decodeNext.exists_eq h heq
    simp only [heq']
    exact ⟨True.intro, hagrees⟩
  next c s' heq =>
    obtain ⟨t', heq', hagrees⟩ := Knapsack.uniform_decodeNext.exists_eq h heq
    simp only [heq']
    exact ⟨True.intro, hagrees⟩
  next k c s' heq =>
    obtain ⟨t', heq', hagrees⟩ := Knapsack.uniform_decodeNext.exists_eq h heq
    simp only [heq', hagrees.position_eq]
    exact ⟨True.intro, hagrees⟩

/-- Instances are decoded alike. -/
lemma uniform_decode (f : InputFormat) : Uniform f.decode := by
  cases f with
  | mps settings => exact uniform_single (Mps.uniform_decode settings)
  | lp settings => exact uniform_single (Lp.uniform_decode settings)
  | knapsack => exact uniform_knapsack
  | flatZinc settings => exact uniform_single (FlatZinc.uniform_decode settings)
  | exchange => exact uniform_single Exchange.uniform_decode

/-! ## Offsets and bytes -/

/-- The offset keeps up with the bytes of the only instance of a stream, unless the system fails. -/
lemma tracks_single {P : Instance → Prop} {input : InputStream}
    (h : Reading P input (read input)) : Tracks input (decode.single (read input)) :=
  h.tracks.map

/-- The offset keeps up with the bytes of a knapsack, unless the system fails. -/
lemma tracks_knapsack (input : InputStream) : Tracks input (knapsack.decode input) := by
  have hnext := (Knapsack.reading_decodeNext input).tracks
  simp only [decode]
  split
  next e input' heq =>
    rw [heq] at hnext
    exact hnext.of_error
  next c input' heq =>
    rw [heq] at hnext
    exact .of_advances (hnext.advances not_failed_ok) not_failed_ok
  next k c input' heq =>
    rw [heq] at hnext
    exact .of_advances (hnext.advances not_failed_ok)
      (failed_map_iff.not.2 (not_failed_report _ _ _))

/-- The offset keeps up with the bytes of an instance, unless the system fails. -/
lemma tracks_decode (f : InputFormat) (input : InputStream) : Tracks input (f.decode input) := by
  cases f with
  | mps settings => exact tracks_single (Mps.reading_decode settings input)
  | lp settings => exact tracks_single (Lp.reading_decode settings input)
  | knapsack => exact tracks_knapsack input
  | flatZinc settings => exact tracks_single (FlatZinc.reading_decode settings input)
  | exchange => exact tracks_single (Exchange.reading_decode input)

end InputFormat

namespace Reader

variable {r : Reader} {s t : InputStream}

/-- A call on a stream that agrees does the same. -/
lemma next_of_agrees (h : s.Agrees t) :
    (r.next s).1 = (r.next t).1 ∧ (r.next s).2.1 = (r.next t).2.1 ∧
      (r.next s).2.2.Agrees (r.next t).2.2 := by
  unfold next
  split
  · exact ⟨rfl, rfl, h⟩
  · split
    next e s' heq =>
      obtain ⟨t', heq', hagrees⟩ := r.format.uniform_decode.exists_eq h heq
      rw [heq']
      exact ⟨rfl, rfl, hagrees⟩
    next inst c s' heq =>
      obtain ⟨t', heq', hagrees⟩ := r.format.uniform_decode.exists_eq h heq
      rw [heq']
      exact ⟨rfl, rfl, hagrees⟩

/-- The offset keeps up with the bytes that a call takes, unless the system fails. -/
lemma tracks_next (r : Reader) (s : InputStream) :
    Tracks s ((r.next s).1, (r.next s).2.2) := by
  have hdecode := r.format.tracks_decode s
  unfold next
  split
  · exact .of_advances (.refl s) not_failed_ok
  · split
    next e s' heq =>
      rw [heq] at hdecode
      exact hdecode.of_error
    next inst c s' heq =>
      rw [heq] at hdecode
      exact .of_advances (hdecode.advances not_failed_ok) not_failed_ok

end Reader

end LinearInterchange
