import LinearInterchange.Proofs.Reseeking
import LinearInterchange.Proofs.TextPositions

/-!
# What streams count

A stream is read by lines and by skipping white space, in any order (`Move`).  What it hands out and
where it stands then does not depend on how its bytes are fetched, since each move is settled by the
bytes ahead (`Agrees.answers_eq`).

On a text no move fails, and the two counts are those of the bytes that are consumed (`Counted`):
all of them are counted, and their line feeds.  A last line that no line feed ends counts as a line
if it is read as one, and not if it is white space that is skipped.  After such a line nothing lies
ahead, so it is counted once (`Counted.move`).
-/

namespace LinearInterchange.InputStream

open Text ByteSource

/-! ## Moves -/

/-- A way to go on in a stream: behind the next line, or behind the white space ahead. -/
inductive Move where
  | line
  | blanks

/-- The call that makes a move. -/
def Move.call : Move → Call
  | .line => .readLine
  | .blanks => .skipWhitespace

/-- The answer is a line that no line feed ends.  The end of a stream is no line. -/
def Answer.isUnended : Answer → Bool
  | .line (.ok text) => text ≠ "" && '\n' ∉ text.toList
  | _ => false

variable {s t : InputStream} {content : List UInt8} {text : String} {cs : List Char}

/-- Streams that agree answer a move in the same way, and agree afterwards. -/
lemma Agrees.perform_move (h : s.Agrees t) (move : Move) :
    (s.perform move.call).1 = (t.perform move.call).1 ∧
      (s.perform move.call).2.Agrees (t.perform move.call).2 := by
  cases move with
  | line =>
    obtain ⟨houtcome, hagrees⟩ := uniform_readLine h
    exact ⟨congrArg Answer.line houtcome, hagrees⟩
  | blanks =>
    obtain ⟨houtcome, hagrees⟩ := uniform_skipWhitespace h
    exact ⟨congrArg Answer.skipped houtcome, hagrees⟩

/-- Streams that agree answer all moves in the same way. -/
lemma Agrees.answers_eq (h : s.Agrees t) (moves : List Move) :
    s.answers (moves.map Move.call) = t.answers (moves.map Move.call) := by
  refine answers_congr (P := fun call => ∃ move : Move, move.call = call) Agrees.position_eq ?_ h ?_
  · rintro s t _ ⟨move, rfl⟩ hagrees
    exact hagrees.perform_move move
  · intro call hcall
    obtain ⟨move, -, hmove⟩ := List.mem_map.1 hcall
    exact ⟨move, hmove⟩

/-- The answers to calls end with the answer to the last one. -/
lemma answers_concat (calls : List Call) (call : Call) :
    s.answers (calls ++ [call]) = s.answers calls ++
      [(((s.after calls).perform call).1, ((s.after calls).perform call).2.position)] := by
  induction calls generalizing s with
  | nil => rfl
  | cons first calls ih =>
    rw [List.cons_append, answers, answers, ih, List.cons_append]
    rfl

/-! ## Lines -/

/-- A line that is cut off is counted by its line feed, or it has none and is the last one, unless
it is the end of the stream. -/
lemma CutOff.count_lineFeed {more : List UInt8} (h : CutOff text more) :
    (bytesOf text).count lineFeed + (if (Answer.line (.ok text)).isUnended then 1 else 0) =
      if text = "" then 0 else 1 := by
  obtain ⟨front, hfront, hline⟩ := h
  have hnone : (utf8 front).count lineFeed = 0 :=
    List.count_eq_zero.2 (lineFeed_notMem_utf8 hfront)
  rw [bytesOf_eq_utf8]
  rcases hline with hline | ⟨hline, -⟩
  · have hne : text ≠ "" := by
      rintro rfl
      simp at hline
    rw [hline, utf8_append, List.count_append, hnone, utf8_lineFeed]
    simp [Answer.isUnended, hline, hne]
  · rw [hline, hnone]
    simp [Answer.isUnended, hline, hfront]

/-- A line that no line feed ends is the last one. -/
lemma CutOff.eq_nil_of_isUnended {more : List UInt8} (h : CutOff text more)
    (hunended : (Answer.line (.ok text)).isUnended = true) : bytesOf text ≠ [] ∧ more = [] := by
  rw [Answer.isUnended, Bool.and_eq_true, decide_eq_true_eq, decide_eq_true_eq] at hunended
  obtain ⟨front, -, hline | ⟨-, hnil⟩⟩ := h
  · exact absurd (hline ▸ List.mem_append_right _ List.mem_cons_self) hunended.2
  · exact ⟨fun hempty => hunended.1 (bytesOf_injective hempty), hnil⟩

/-! ## Counts -/

/-- The bytes of the content before those ahead are consumed, and the counts of the stream are
theirs.  A last line that was read without a line feed is counted as well. -/
structure Counted (content : List UInt8) (unended : Bool) (s : InputStream) : Prop where
  consumed : ∃ consumed, content = consumed ++ s.source.rest ∧ s.offset = consumed.length ∧
    s.line = consumed.count lineFeed + if unended then 1 else 0
  /-- Behind a last line nothing lies ahead. -/
  last : unended = true → s.source.rest = []
  text : ∃ cs, s.source.rest = utf8 cs

namespace Counted

variable {unended fresh : Bool} {bytes : List UInt8} {s' : InputStream}

/-- Nothing of a text is consumed before it is read. -/
lemma ofBytes (text : String) (seekable : Bool) (chunk : ℕ) :
    Counted (bytesOf text) false (ofBytes (bytesOf text) seekable chunk) where
  consumed := ⟨[], rfl, rfl, rfl⟩
  last := nofun
  text := ⟨text.toList, bytesOf_eq_utf8 text⟩

/-- More bytes are consumed and counted.  They may be a last line without a line feed. -/
lemma extend (h : Counted content unended s) (hrest : s.source.rest = bytes ++ s'.source.rest)
    (hoffset : s'.offset = s.offset + bytes.length)
    (hline : s'.line = s.line + (bytes.count lineFeed + if fresh then 1 else 0))
    (hfresh : fresh = true → bytes ≠ [] ∧ s'.source.rest = [])
    (htext : ∃ cs, s'.source.rest = utf8 cs) : Counted content (unended || fresh) s' := by
  obtain ⟨consumed, hcontent, hcount, hlines⟩ := h.consumed
  -- behind a last line there is no other one
  have honce : ¬(unended = true ∧ fresh = true) := by
    rintro ⟨hunended, hfresh'⟩
    rw [h.last hunended] at hrest
    exact (hfresh hfresh').1 (List.append_eq_nil_iff.1 hrest.symm).1
  refine ⟨⟨consumed ++ bytes, ?_, ?_, ?_⟩, fun hlast => ?_, htext⟩
  · rw [List.append_assoc, ← hrest, hcontent]
  · rw [hoffset, hcount, List.length_append]
  · rw [hline, hlines, List.count_append]
    cases unended <;> cases fresh <;> simp at honce ⊢ <;> omega
  · rcases Bool.or_eq_true_iff.1 hlast with hunended | hfresh'
    · rw [h.last hunended] at hrest
      exact (List.append_eq_nil_iff.1 hrest.symm).2
    · exact (hfresh hfresh').2

/-- A move is counted. -/
lemma move (h : Counted content unended s) (move : Move) :
    Counted content (unended || (s.perform move.call).1.isUnended) (s.perform move.call).2 := by
  obtain ⟨cs, hcs⟩ := h.text
  cases move with
  | line =>
    obtain ⟨text, s', hread, hrest, hcut, htext⟩ := exists_readLine hcs
    have hline := line_of_readLine hread
    simp only [Move.call, perform, hread]
    refine h.extend hrest (readLine_ok hread).2 ?_ hcut.eq_nil_of_isUnended htext
    rw [hcut.count_lineFeed, hline]
    split <;> rfl
  | blanks =>
    obtain ⟨hcount, hfeeds, -, hrest⟩ := s.source.skipRun_spec
    have hsplit : s.source.rest =
        s.source.rest.takeWhile isSkipped ++ s.skipWhitespace.2.source.rest := by
      show _ = _ ++ s.source.skipRun.2.2.2.rest
      rw [hrest, List.takeWhile_append_dropWhile]
    -- white space is no line, whether or not a line feed ends it
    refine h.extend hsplit (congrArg (s.offset + ·) hcount) ?_ (absurd · Bool.false_ne_true) ?_
    · exact congrArg (s.line + ·) hfeeds
    · show ∃ ds, s.source.skipRun.2.2.2.rest = utf8 ds
      rw [hrest, hcs]
      exact exists_dropWhile_utf8 cs

/-- All moves are counted, and a last line is if one of them has read it. -/
lemma after (h : Counted content false s) (moves : List Move) :
    Counted content ((s.answers (moves.map Move.call)).any (·.1.isUnended))
      (s.after (moves.map Move.call)) := by
  induction moves using List.reverseRecOn with
  | nil => exact h
  | append_singleton moves move ih =>
    rw [List.map_append, List.map_singleton, after_concat, answers_concat, List.any_append]
    simpa using ih.move move

end Counted

/-! ## What lies ahead -/

/-- The bytes of blanks, tabs, line feeds, form feeds and carriage returns. -/
def blankBytes : List UInt8 :=
  [0x20, 0x09, 0x0a, 0x0c, 0x0d]

lemma mem_blankBytes_iff {b : UInt8} : b ∈ blankBytes ↔ isSkipped b = true := by
  simp only [blankBytes, isSkipped, List.mem_cons, List.not_mem_nil, Bool.or_eq_true, beq_iff_eq]
  tauto

/-- White space is skipped up to the first byte of another kind. -/
lemma exists_skipWhitespace (s : InputStream) :
    ∃ run more left, s.source.rest = run ++ more ∧
      s.skipWhitespace = (decide (more = []), left) ∧ left.source.rest = more ∧
      (∀ b ∈ run, b ∈ blankBytes) ∧ ∀ b ∈ more.head?, b ∉ blankBytes := by
  obtain ⟨-, -, hended, hrest⟩ := s.source.skipRun_spec
  refine ⟨_, _, s.skipWhitespace.2, List.takeWhile_append_dropWhile.symm, Prod.ext ?_ rfl, hrest,
    fun b hb => ?_, fun b hb => ?_⟩
  · show s.source.skipRun.2.2.1 = _
    rw [hended, Bool.eq_iff_iff, List.isEmpty_iff, decide_eq_true_eq]
  · exact mem_blankBytes_iff.2 (List.mem_takeWhile_imp hb)
  · have hnot := List.head?_dropWhile_not isSkipped s.source.rest
    rw [Option.mem_def.1 hb] at hnot
    rw [mem_blankBytes_iff, Bool.not_eq_true]
    exact hnot

/-- **Streams over texts count what they consume.**  Lines of a text are read and white space is
skipped, in any order.  Whatever the size of the chunks in which the bytes are fetched, the same
texts and flags are handed out at the same positions.  The offset is the number of the bytes
consumed.  The line is the number of the line feeds among them, and one more once a last line
without a line feed was read.  The next line to be read goes up to the next line feed, or up to the
end if there is none.  The white space to be skipped is the longest run of blanks, tabs, line feeds,
form feeds and carriage returns ahead, and the flag tells whether nothing follows it. -/
theorem counts_consumed (text : String) (seekable : Bool) (chunk : ℕ) (moves : List Move) :
    let start := ofBytes (bytesOf text) seekable chunk
    let calls := moves.map Move.call
    let used := start.after calls
    (∀ seekable' chunk',
      (ofBytes (bytesOf text) seekable' chunk').answers calls = start.answers calls) ∧
    (∃ consumed, bytesOf text = consumed ++ used.source.rest ∧ used.offset = consumed.length ∧
      used.line = consumed.count lineFeed +
        if (start.answers calls).any (·.1.isUnended) then 1 else 0) ∧
    (∃ line left, used.readLine = (.ok line, left) ∧
      used.source.rest = bytesOf line ++ left.source.rest ∧ CutOff line left.source.rest) ∧
    ∃ run more left, used.source.rest = run ++ more ∧
      used.skipWhitespace = (decide (more = []), left) ∧ left.source.rest = more ∧
      (∀ b ∈ run, b ∈ blankBytes) ∧ ∀ b ∈ more.head?, b ∉ blankBytes := by
  intro start calls used
  have hcounted : Counted (bytesOf text) _ used := (Counted.ofBytes text seekable chunk).after moves
  obtain ⟨cs, hcs⟩ := hcounted.text
  obtain ⟨line, left, hread, hrest, hcut, -⟩ := exists_readLine hcs
  refine ⟨fun seekable' chunk' => ?_, hcounted.consumed, ⟨line, left, hread, hrest, hcut⟩,
    used.exists_skipWhitespace⟩
  have hagrees : (ofBytes (bytesOf text) seekable' chunk').Agrees start := ⟨rfl, rfl, rfl⟩
  exact hagrees.answers_eq moves

example : ((ofBytes (bytesOf "ab\ncd\n\n  \nef") false 2).after
    [.readLine, .readLine, .skipWhitespace]).position = ⟨5, 10⟩ := by
  decide +kernel

end LinearInterchange.InputStream
