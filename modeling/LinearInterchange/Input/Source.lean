/-! # Byte sources

A source hands out its bytes through a buffer that is filled a chunk at a time. What it hands out
does not depend on the size of the chunks. -/

namespace LinearInterchange

/-- A buffered source of bytes. Only a seekable one can be set back. -/
structure ByteSource where
  /-- All bytes of the source, from its start. -/
  content : List UInt8
  seekable : Bool
  /-- How many bytes are fetched at a time. -/
  chunk : Nat
  chunk_pos : 0 < chunk
  /-- Bytes that are fetched and not yet consumed. -/
  buffered : List UInt8
  /-- Bytes that are not yet fetched. -/
  unread : List UInt8

namespace ByteSource

/-- The byte of a line feed. -/
def lineFeed : UInt8 := 10

/-- The bytes that are skipped between entries of a stream: tab, line feed, form feed, carriage
return and blank. -/
def isSkipped (b : UInt8) : Bool :=
  b == 9 || b == 10 || b == 12 || b == 13 || b == 32

/-- A source at its start. -/
def ofBytes (content : List UInt8) (seekable : Bool) (chunk : Nat) : ByteSource where
  content := content
  seekable := seekable
  chunk := max chunk 1
  chunk_pos := by omega
  buffered := []
  unread := content

/-- The bytes that are still to come. -/
def rest (s : ByteSource) : List UInt8 :=
  s.buffered ++ s.unread

@[simp] theorem rest_ofBytes (content : List UInt8) (seekable : Bool) (chunk : Nat) :
    (ofBytes content seekable chunk).rest = content := rfl

/-- Fetches a chunk if the buffer is empty. -/
def fill (s : ByteSource) : ByteSource :=
  if s.buffered.isEmpty then
    { s with buffered := s.unread.take s.chunk, unread := s.unread.drop s.chunk }
  else s

@[simp] theorem rest_fill (s : ByteSource) : s.fill.rest = s.rest := by
  unfold fill rest
  split <;> simp_all

/-- A source whose buffer stays empty has no bytes left. -/
theorem buffered_fill_eq_nil_iff (s : ByteSource) : s.fill.buffered = [] ↔ s.rest = [] := by
  have := s.chunk_pos
  unfold fill rest
  split
  next h => simp_all; omega
  next h => simp_all

/-- Consumes bytes of the buffer. -/
def consume (n : Nat) (s : ByteSource) : ByteSource :=
  { s with buffered := s.buffered.drop n }

theorem rest_consume {n : Nat} {s : ByteSource} (h : n ≤ s.buffered.length) :
    (s.consume n).rest = s.rest.drop n := by
  simp [consume, rest, List.drop_append_of_le_length h]

theorem length_rest_consume {n : Nat} {s : ByteSource} (hne : s.fill.buffered ≠ [])
    (hle : n ≤ s.fill.buffered.length) (hpos : 0 < n) :
    (s.fill.consume n).rest.length < s.rest.length := by
  have hbuf : 0 < s.fill.buffered.length := List.length_pos_iff.2 hne
  have hrest : s.fill.buffered.length ≤ s.fill.rest.length := by simp [rest]
  rw [rest_consume hle, List.length_drop, ← rest_fill s]
  omega

/-- Consumes bytes of the buffer and then of what is not yet fetched. -/
def advance (n : Nat) (s : ByteSource) : ByteSource :=
  { s with buffered := s.buffered.drop n, unread := s.unread.drop (n - s.buffered.length) }

@[simp] theorem rest_advance (n : Nat) (s : ByteSource) : (s.advance n).rest = s.rest.drop n := by
  simp [advance, rest, List.drop_append]

/-- Sets the source to a distance from its start and empties the buffer. -/
def jump (offset : Nat) (s : ByteSource) : ByteSource :=
  { s with buffered := [], unread := s.content.drop offset }

@[simp] theorem rest_jump (offset : Nat) (s : ByteSource) :
    (s.jump offset).rest = s.content.drop offset := rfl

/-- The bytes up to and including the first line feed, and the bytes after it if there is one. -/
def cutLine : List UInt8 → List UInt8 × Option (List UInt8)
  | [] => ([], none)
  | b :: bs =>
    if b = lineFeed then ([b], some bs)
    else
      let (line, after) := cutLine bs
      (b :: line, after)

theorem cutLine_append (bs : List UInt8) : (cutLine bs).1 ++ (cutLine bs).2.getD [] = bs := by
  induction bs with
  | nil => rfl
  | cons b bs ih =>
    unfold cutLine
    split
    · rfl
    · simpa using ih

theorem length_cutLine_le (bs : List UInt8) : (cutLine bs).1.length ≤ bs.length := by
  have := congrArg List.length (cutLine_append bs)
  rw [List.length_append] at this
  omega

/-- Consumes the bytes up to and including the next line feed, or all bytes if there is none. -/
def takeLine (s : ByteSource) : List UInt8 × ByteSource :=
  let s' := s.fill
  if s'.buffered = [] then ([], s')
  else
    let line := (cutLine s'.buffered).1
    if (cutLine s'.buffered).2.isSome then (line, s'.consume line.length)
    else
      let (more, s'') := takeLine (s'.consume s'.buffered.length)
      (line ++ more, s'')
termination_by s.rest.length
decreasing_by
  rename_i hne _
  exact length_rest_consume hne (Nat.le_refl _) (List.length_pos_iff.2 hne)

/-- Consumes the longest run of skipped bytes. Returns the number of bytes and of line feeds
consumed, and whether the source is at its end. -/
def skipRun (s : ByteSource) : Nat × Nat × Bool × ByteSource :=
  let s' := s.fill
  if s'.buffered = [] then (0, 0, true, s')
  else
    let piece := s'.buffered.takeWhile isSkipped
    let feeds := piece.count lineFeed
    if piece.length < s'.buffered.length then
      (piece.length, feeds, false, s'.consume piece.length)
    else
      let (n, k, ended, s'') := skipRun (s'.consume piece.length)
      (piece.length + n, feeds + k, ended, s'')
termination_by s.rest.length
decreasing_by
  rename_i hne hlt
  have hle : piece.length ≤ s'.buffered.length := List.IsPrefix.length_le (List.takeWhile_prefix _)
  have hpos : 0 < s'.buffered.length := List.length_pos_iff.2 hne
  have hpiece : 0 < piece.length := Nat.lt_of_lt_of_le hpos (Nat.le_of_not_lt hlt)
  exact length_rest_consume hne hle hpiece

/-- Nothing is lost: the line and what is left make up what was there. -/
theorem takeLine_append_rest (s : ByteSource) :
    s.takeLine.1 ++ s.takeLine.2.rest = s.rest := by
  fun_induction takeLine s with
  | case1 s s' h => simp [s']
  | case2 s s' h line _ =>
    have hcut := cutLine_append s'.buffered
    rw [rest_consume (length_cutLine_le _), ← rest_fill s]
    show line ++ s'.rest.drop line.length = s'.rest
    have hrest : s'.rest = line ++ ((cutLine s'.buffered).2.getD [] ++ s'.unread) := by
      rw [← List.append_assoc, hcut, rest]
    rw [hrest, List.drop_left]
  | case3 s s' h line hnone more s'' heq ih =>
    have hcut := cutLine_append s'.buffered
    rw [Option.not_isSome_iff_eq_none.1 hnone] at hcut
    have hline : line = s'.buffered := by simpa using hcut
    rw [heq, rest_consume (Nat.le_refl _)] at ih
    rw [List.append_assoc, ih, hline, ← rest_fill s]
    show s'.buffered ++ s'.rest.drop s'.buffered.length = s'.rest
    simp [rest]

/-- A line that holds anything leaves less than there was. -/
theorem length_rest_takeLine {s : ByteSource} (h : s.takeLine.1 ≠ []) :
    s.takeLine.2.rest.length < s.rest.length := by
  have := congrArg List.length (takeLine_append_rest s)
  have hpos : 0 < s.takeLine.1.length := List.length_pos_iff.2 h
  rw [List.length_append] at this
  omega

/-- A run that is skipped leaves no more than there was. -/
theorem length_rest_skipRun_le (s : ByteSource) :
    s.skipRun.2.2.2.rest.length ≤ s.rest.length := by
  fun_induction skipRun s with
  | case1 s s' h => simp [s']
  | case2 s s' h piece feeds hlt =>
    rw [rest_consume (Nat.le_of_lt hlt), List.length_drop]
    simp [s']
  | case3 s s' h piece feeds hlt n k ended s'' heq ih =>
    rw [heq] at ih
    have hle : piece.length ≤ s'.buffered.length :=
      List.IsPrefix.length_le (List.takeWhile_prefix _)
    rw [rest_consume hle, List.length_drop] at ih
    have hrest : s'.rest = s.rest := rest_fill s
    rw [hrest] at ih
    exact Nat.le_trans ih (Nat.sub_le ..)

end ByteSource

end LinearInterchange
