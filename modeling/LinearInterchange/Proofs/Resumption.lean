import LinearInterchange.Proofs.ReaderSteps

/-!
# Resuming a stream of knapsacks

A reader that has decoded the first entries of a stream leaves a cursor, and a stream over the same
bytes that is moved to that cursor goes on as the first one does.

Two facts are behind this.  What a step of reading does is settled by the bytes ahead and by the
two counts of the stream, so streams that agree in these are read alike (`Uniform`), whatever lies
in their buffers.  And a step that succeeds moves the offset past exactly the bytes that it takes
(`Advances`), so the offset of the cursor leads another stream to the same bytes.  A failing step
may break the second fact, but never the first one.
-/

namespace LinearInterchange

namespace InputStream

/-- A stream at its start can be moved past any of its bytes, by a jump or by skipping them. -/
lemma seekTo_ofBytes (before rest : List UInt8) (seekable : Bool) (chunk : ℕ) {c : Cursor}
    (hoffset : c.offset = before.length) :
    ∃ s, (ofBytes (before ++ rest) seekable chunk).seekTo c = (.ok (), s) ∧
      s.source.rest = rest ∧ s.offset = c.offset ∧ s.line = c.line := by
  have hstart : (ofBytes (before ++ rest) seekable chunk).offset = 0 := rfl
  have hdrop : (before ++ rest).drop c.offset = rest := by
    rw [hoffset, List.drop_left]
  unfold seekTo
  rw [hstart]
  split
  next hzero =>
    rw [hzero, List.drop_zero] at hdrop
    exact ⟨_, rfl, hdrop, hzero.symm, rfl⟩
  next =>
    split
    · exact ⟨_, rfl, hdrop, rfl, rfl⟩
    · rw [if_neg (Nat.not_lt_zero _)]
      have hlength : ¬(before ++ rest).length < c.offset - 0 := by
        rw [List.length_append, hoffset]
        omega
      refine ⟨_, if_neg hlength, ?_, rfl, rfl⟩
      rw [ByteSource.rest_advance]
      exact hdrop

end InputStream

namespace Knapsack

open InputStream

variable {input input' : InputStream}

/-- Decoding leaves an entry behind, and the cursor tells where the stream stands. -/
lemma decodeNext_ok {k : Option Knapsack} {c : Cursor}
    (h : decodeNext input = (.ok (k, c), input')) :
    Advances input input' ∧ c.offset = input'.offset ∧ c.line = input'.line := by
  have htracks := (reading_decodeNext input).tracks
  rw [h] at htracks
  refine ⟨htracks.advances not_failed_ok, ?_⟩
  unfold decodeNext at h
  split at h
  · obtain ⟨heq, rfl⟩ := Prod.mk.inj h
    cases heq
    exact ⟨rfl, rfl⟩
  · split at h
    · cases (Prod.mk.inj h).1
    · obtain ⟨heq, rfl⟩ := Prod.mk.inj h
      cases heq
      exact ⟨rfl, rfl⟩

end Knapsack

namespace InputFormat

open InputStream

/-- Decoding leaves an entry behind, and the cursor tells where the stream stands. -/
lemma decode_ok {input input' : InputStream} {inst : Option Instance} {c : Cursor}
    (h : knapsack.decode input = (.ok (inst, c), input')) :
    Advances input input' ∧ c.offset = input'.offset ∧ c.line = input'.line := by
  simp only [decode] at h
  split at h
  · cases (Prod.mk.inj h).1
  next c' input₁ heq =>
    obtain ⟨hcursor, rfl⟩ := Prod.mk.inj h
    cases hcursor
    exact Knapsack.decodeNext_ok heq
  next k c' input₁ heq =>
    obtain ⟨hinst, rfl⟩ := Prod.mk.inj h
    obtain ⟨inst', -, hpair⟩ := map_eq_ok.1 hinst
    cases hpair
    exact Knapsack.decodeNext_ok heq

end InputFormat

namespace Reader

open InputStream

/-! ## Calling a reader again and again -/

/-- A reader and its stream after a number of calls, whatever comes of them. -/
def after (r : Reader) (input : InputStream) : ℕ → Reader × InputStream
  | 0 => (r, input)
  | n + 1 => ((r.after input n).1.next (r.after input n).2).2

/-- What comes of the next call after a number of calls. -/
def outcome (r : Reader) (input : InputStream) (n : ℕ) : Except ReadError (Option Instance) :=
  ((r.after input n).1.next (r.after input n).2).1

variable {r r' : Reader} {s s' t : InputStream} {content : List UInt8} {n k : ℕ}

/-- The calls after a number of calls are calls of the reader and on the stream that those left. -/
lemma after_add (r : Reader) (input : InputStream) (k n : ℕ) :
    r.after input (k + n) = (r.after input k).1.after (r.after input k).2 n := by
  induction n with
  | zero => rfl
  | succ n ih =>
    rw [Nat.add_succ, after, after, ih]

lemma outcome_add (r : Reader) (input : InputStream) (k n : ℕ) :
    r.outcome input (k + n) = (r.after input k).1.outcome (r.after input k).2 n := by
  rw [outcome, outcome, after_add]

/-- The cursor of a reader makes no difference to a call, as long as it is not at the end.  A call
that succeeds sets it anew, and one that fails leaves it as it was. -/
lemma next_of_not_atEnd (hformat : r'.format = r.format) (hend : r.cursor.atEnd = false)
    (hend' : r'.cursor.atEnd = false) (s : InputStream) :
    (r'.next s).1 = (r.next s).1 ∧ (r'.next s).2.2 = (r.next s).2.2 ∧
      ((r.next s).1.isOk = true → (r'.next s).2.1 = (r.next s).2.1) ∧
      ((r.next s).1.isOk = false → (r'.next s).2.1 = r' ∧ (r.next s).2.1 = r) := by
  simp only [next, hend, hend', hformat, Bool.false_eq_true, if_false]
  split
  · exact ⟨rfl, rfl, fun h => (Bool.false_ne_true h).elim, fun _ => ⟨rfl, rfl⟩⟩
  next inst c s' heq =>
    refine ⟨rfl, rfl, fun _ => ?_, fun h => (Bool.false_ne_true h.symm).elim⟩
    cases r
    cases r'
    cases hformat
    rfl

/-! ## The place of a cursor -/

/-- The cursor of the reader tells where the stream stands within its content. -/
structure Located (content : List UInt8) (r : Reader) (s : InputStream) : Prop where
  ahead : ∃ before, content = before ++ s.source.rest ∧ r.cursor.offset = before.length
  offset : r.cursor.offset = s.offset
  line : r.cursor.line = s.line

/-- A call that succeeds leaves a cursor that tells where the stream stands. -/
lemma Located.next (h : Located content r s) (hformat : r.format = .knapsack)
    (hok : (r.next s).1.isOk = true) : Located content (r.next s).2.1 (r.next s).2.2 := by
  obtain ⟨before, hcontent, hbefore⟩ := h.ahead
  revert hok
  unfold Reader.next
  split
  · exact fun _ => h
  · rw [hformat]
    split
    · exact fun hok => (Bool.false_ne_true hok).elim
    next inst c s' heq =>
      intro _
      obtain ⟨⟨-, bytes, hrest, hmoved⟩, hcoffset, hcline⟩ := InputFormat.decode_ok heq
      refine ⟨⟨before ++ bytes, ?_, ?_⟩, hcoffset, hcline⟩
      · rw [hcontent, hrest, List.append_assoc]
      · show c.offset = _
        rw [hcoffset, hmoved, ← h.offset, hbefore, List.length_append]

/-- Calls keep the format of the reader. -/
lemma format_after (r : Reader) (input : InputStream) (n : ℕ) :
    (r.after input n).1.format = r.format := by
  induction n with
  | zero => rfl
  | succ n ih => rw [after, format_next, ih]

/-- Calls that all succeed leave a cursor that tells where the stream stands. -/
lemma Located.after (h : Located content r s) (hformat : r.format = .knapsack)
    (hok : ∀ i < k, (r.outcome s i).isOk = true) :
    Located content (r.after s k).1 (r.after s k).2 := by
  induction k with
  | zero => exact h
  | succ k ih =>
    have hlocated := ih fun i hi => hok i (Nat.lt_succ_of_lt hi)
    exact hlocated.next ((r.format_after s k).trans hformat) (hok k (Nat.lt_succ_self k))

/-! ## Two readers -/

section InStep

/-- After a number of calls two readers are in step: their streams agree, and the readers are equal,
unless all calls have failed and both are as they were. -/
structure InStep (r r' : Reader) (s t : InputStream) (n : ℕ) : Prop where
  streams : (r.after s n).2.Agrees (r'.after t n).2
  readers : (∃ i < n, (r.outcome s i).isOk = true) ∧ (r'.after t n).1 = (r.after s n).1 ∨
    (∀ i < n, (r.outcome s i).isOk = false) ∧ (r'.after t n).1 = r' ∧ (r.after s n).1 = r

variable (hformat : r'.format = r.format)
  (hend : r.cursor.atEnd = false) (hend' : r'.cursor.atEnd = false)

include hformat hend hend'

/-- On streams that agree, readers that are not at the end do the same call. -/
lemma next_of_agrees_of_not_atEnd (h : s.Agrees t) :
    (r'.next t).1 = (r.next s).1 ∧ (r.next s).2.2.Agrees (r'.next t).2.2 ∧
      ((r.next s).1.isOk = true → (r'.next t).2.1 = (r.next s).2.1) ∧
      ((r.next s).1.isOk = false → (r'.next t).2.1 = r' ∧ (r.next s).2.1 = r) := by
  obtain ⟨houtcome, hreader, hstream⟩ := next_of_agrees h
  have hcall := next_of_not_atEnd hformat hend hend' s
  rw [houtcome, hreader] at hcall
  exact ⟨hcall.1, hcall.2.1 ▸ hstream, hcall.2.2⟩

/-- Readers that are in step do the same call. -/
lemma InStep.outcome_eq (h : InStep r r' s t n) : r'.outcome t n = r.outcome s n := by
  rcases h.readers with ⟨-, hsame⟩ | ⟨-, hfresh, hfirst⟩
  · rw [outcome, outcome, hsame]
    exact (next_of_agrees h.streams).1.symm
  · rw [outcome, outcome, hfresh, hfirst]
    exact (next_of_agrees_of_not_atEnd hformat hend hend' h.streams).1

/-- Readers that are in step stay so. -/
lemma InStep.succ (h : InStep r r' s t n) : InStep r r' s t (n + 1) := by
  rcases h.readers with ⟨⟨i, hi, hok⟩, hsame⟩ | ⟨hfailed, hfresh, hfirst⟩
  · obtain ⟨-, hreader, hstream⟩ := next_of_agrees h.streams
    refine ⟨?_, .inl ⟨⟨i, Nat.lt_succ_of_lt hi, hok⟩, ?_⟩⟩
    · rw [after, after, hsame]
      exact hstream
    · rw [after, after, hsame]
      exact hreader.symm
  · obtain ⟨-, hstream, hsuccess, hfailure⟩ :=
      next_of_agrees_of_not_atEnd hformat hend hend' h.streams
    have hlast : r.outcome s n = (r.next (r.after s n).2).1 := by
      rw [outcome, hfirst]
    rw [← hlast] at hsuccess hfailure
    constructor
    · rw [after, after, hfresh, hfirst]
      exact hstream
    · rw [after, after, hfresh, hfirst]
      cases hok : (r.outcome s n).isOk with
      | true => exact .inl ⟨⟨n, Nat.lt_succ_self n, hok⟩, hsuccess hok⟩
      | false =>
        refine .inr ⟨fun i hi => ?_, hfailure hok⟩
        rcases Nat.lt_succ_iff_lt_or_eq.1 hi with hlt | rfl
        · exact hfailed i hlt
        · exact hok

/-- Readers on streams that agree are in step after any number of calls. -/
lemma inStep_of_agrees (h : s.Agrees t) (n : ℕ) : InStep r r' s t n := by
  induction n with
  | zero => exact ⟨h, .inr ⟨fun i hi => absurd hi (Nat.not_lt_zero i), rfl, rfl⟩⟩
  | succ n ih => exact ih.succ hformat hend hend'

end InStep

/-- **Streams can be resumed.**  If the first calls of a reader on a stream of knapsacks succeed,
then a stream over the same bytes can be moved to the cursor of the reader, whatever the chunks of
the two streams and whether or not they can be set back.  Unless the cursor is at the end, a new
reader on that stream goes on as the first reader does: its calls give the same instances and the
same errors at the same positions, leave the stream at the same position, and leave the same cursor
as soon as one of them has succeeded.  As long as they fail, both readers keep the cursors they had:
the first one that of its last success, the new one that of the start. -/
theorem resume_of_cursor (content : List UInt8) (seekable seekable' : Bool) (chunk chunk' k : ℕ)
    (hok : ∀ i < k, (outcome ⟨.knapsack, {}⟩ (.ofBytes content seekable chunk) i).isOk = true) :
    let start := InputStream.ofBytes content seekable chunk
    let first := after ⟨.knapsack, {}⟩ start
    let c := (first k).1.cursor
    ∃ moved, (InputStream.ofBytes content seekable' chunk').seekTo c = (.ok (), moved) ∧
      (c.atEnd = false → ∀ n,
        outcome ⟨.knapsack, {}⟩ moved n = outcome ⟨.knapsack, {}⟩ start (k + n) ∧
        (after ⟨.knapsack, {}⟩ moved n).2.position = (first (k + n)).2.position ∧
        ((∃ i < n, (outcome ⟨.knapsack, {}⟩ moved i).isOk = true) →
          (after ⟨.knapsack, {}⟩ moved n).1.cursor = (first (k + n)).1.cursor) ∧
        ((∀ i < n, (outcome ⟨.knapsack, {}⟩ moved i).isOk = false) →
          (after ⟨.knapsack, {}⟩ moved n).1.cursor = {} ∧ (first (k + n)).1.cursor = c)) := by
  intro start first c
  have hstart : Located content ⟨.knapsack, {}⟩ start := ⟨⟨[], rfl, rfl⟩, rfl, rfl⟩
  have hlocated := hstart.after rfl hok
  obtain ⟨before, hcontent, hbefore⟩ := hlocated.ahead
  obtain ⟨moved, hseek, hrest, hoffset, hline⟩ :=
    seekTo_ofBytes before (first k).2.source.rest seekable' chunk' hbefore
  rw [← hcontent] at hseek
  refine ⟨moved, hseek, fun hend n => ?_⟩
  -- the moved stream has the same bytes ahead at the same place, and this is all that a reader sees
  have hagrees : (first k).2.Agrees moved :=
    ⟨hrest.symm, (hoffset.trans hlocated.offset).symm, (hline.trans hlocated.line).symm⟩
  have hformat : InputFormat.knapsack = (first k).1.format :=
    (format_after ⟨.knapsack, {}⟩ start k).symm
  have hstep : ∀ n, InStep (first k).1 ⟨.knapsack, {}⟩ (first k).2 moved n :=
    inStep_of_agrees hformat hend rfl hagrees
  have hsame : ∀ n, outcome ⟨.knapsack, {}⟩ moved n = (first k).1.outcome (first k).2 n :=
    fun n => (hstep n).outcome_eq hformat hend rfl
  have hadd : first (k + n) = (first k).1.after (first k).2 n := after_add _ _ _ _
  rw [outcome_add, hadd]
  refine ⟨hsame n, (hstep n).streams.position_eq.symm, ?_, ?_⟩
  · rintro ⟨i, hi, hsuccess⟩
    rcases (hstep n).readers with ⟨-, hreaders⟩ | ⟨hfailed, -⟩
    · rw [hreaders]
    · rw [hsame i, hfailed i hi] at hsuccess
      exact (Bool.false_ne_true hsuccess).elim
  · intro hfailed
    rcases (hstep n).readers with ⟨⟨i, hi, hsuccess⟩, -⟩ | ⟨-, hfresh, hfirst⟩
    · rw [← hsame i, hfailed i hi] at hsuccess
      exact (Bool.false_ne_true hsuccess).elim
    · rw [hfresh, hfirst]
      exact ⟨rfl, rfl⟩

/-- The cursor after the first of two entries stands within a line, behind the blanks in front of
the second one.  A stream that skips to it has the second entry and then a refused line ahead. -/
theorem resume_of_cursor_within_line :
    let start := InputStream.ofBytes
      (bytesOf "a\nn 0\nc 0\n-----\n\n \tb\nn 0\nc 1\n-----\na,b\n") true 64
    let first := after ⟨.knapsack, {}⟩ start
    (∀ i < 1, (outcome ⟨.knapsack, {}⟩ start i).isOk = true) ∧
      (first 1).1.cursor = ⟨19, 5, false⟩ ∧
      ∃ moved, (InputStream.ofBytes
          (bytesOf "a\nn 0\nc 0\n-----\n\n \tb\nn 0\nc 1\n-----\na,b\n") false 1).seekTo
            ⟨19, 5, false⟩ = (.ok (), moved) ∧
        outcome ⟨.knapsack, {}⟩ moved 0 = outcome ⟨.knapsack, {}⟩ start 1 ∧
        outcome ⟨.knapsack, {}⟩ moved 1 = outcome ⟨.knapsack, {}⟩ start 2 ∧
        (outcome ⟨.knapsack, {}⟩ start 2).isOk = false ∧
        (after ⟨.knapsack, {}⟩ moved 2).1.cursor = (first 3).1.cursor := by
  intro start first
  have hok : ∀ i < 1, (outcome ⟨.knapsack, {}⟩ start i).isOk = true := by decide +kernel
  have hcursor : (first 1).1.cursor = ⟨19, 5, false⟩ := by decide +kernel
  have hsecond : (outcome ⟨.knapsack, {}⟩ start 1).isOk = true := by decide +kernel
  have hthird : (outcome ⟨.knapsack, {}⟩ start 2).isOk = false := by decide +kernel
  obtain ⟨moved, hseek, hgoes⟩ := resume_of_cursor _ true false 64 1 1 hok
  rw [show (after ⟨.knapsack, {}⟩ (.ofBytes _ true 64) 1).1.cursor = _ from hcursor] at hseek hgoes
  have hnext := (hgoes rfl 0).1
  refine ⟨hok, hcursor, moved, hseek, hnext, (hgoes rfl 1).1, hthird, ?_⟩
  exact (hgoes rfl 2).2.2.1 ⟨0, Nat.two_pos, hnext ▸ hsecond⟩

/-- A new reader on a stream that was moved does not know the cursor that it was moved to.  If its
first call fails, its cursor is still that of the start, while the first reader, which fails in the
same way, keeps the cursor of its last success. -/
theorem cursor_ne_of_failure :
    let start := InputStream.ofBytes (bytesOf "a\nn 0\nc 0\n-----\n\nb") false 1
    let first := after ⟨.knapsack, {}⟩ start
    let c := (first 1).1.cursor
    (∀ i < 1, (outcome ⟨.knapsack, {}⟩ start i).isOk = true) ∧ c.atEnd = false ∧
      (start.seekTo c).1.isOk = true ∧
      (after ⟨.knapsack, {}⟩ (start.seekTo c).2 1).1.cursor = ⟨0, 0, false⟩ ∧
      (first (1 + 1)).1.cursor = ⟨17, 5, false⟩ := by
  decide +kernel

end Reader

end LinearInterchange
