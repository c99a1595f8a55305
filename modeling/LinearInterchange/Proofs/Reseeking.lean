import LinearInterchange.Proofs.ReaderSteps
import Mathlib.Data.List.Induction

/-!
# Setting a stream back

A stream that can be set back jumps to a cursor unless its offset is that of the cursor already.  A
line that is no text is taken from the source and not counted, so after such a line the source is
ahead of the offset, and it stays so until the stream is moved to another offset (`IsAhead`).  A seek
to the very offset at which the stream believes to be then does nothing about it.  In all other
cases a seek makes up for whatever was done with the stream before (`seekTo_recovers_iff`).
-/

namespace LinearInterchange.InputStream

/-! ## Calls -/

/-- What can be done with a stream.  An instance is decoded by a reader in any state. -/
inductive Call where
  | readLine
  | skipWhitespace
  | seekTo (c : Cursor)
  | next (r : Reader)

/-- What comes of a call. -/
inductive Answer where
  | line (outcome : Except SystemFault String)
  | skipped (ended : Bool)
  | moved (outcome : Except SystemFault Unit)
  /-- The reader is in a new state as well. -/
  | decoded (outcome : Except ReadError (Option Instance)) (r : Reader)

/-- Makes a call. -/
def perform (s : InputStream) : Call → Answer × InputStream
  | .readLine => (.line s.readLine.1, s.readLine.2)
  | .skipWhitespace => (.skipped s.skipWhitespace.1, s.skipWhitespace.2)
  | .seekTo c => (.moved (s.seekTo c).1, (s.seekTo c).2)
  | .next r => (.decoded (r.next s).1 (r.next s).2.1, (r.next s).2.2)

/-- The stream after calls, whatever comes of them. -/
def after (s : InputStream) (calls : List Call) : InputStream :=
  calls.foldl (fun s call => (s.perform call).2) s

/-- What comes of calls, each with the position where it leaves the stream. -/
def answers (s : InputStream) : List Call → List (Answer × Position)
  | [] => []
  | call :: calls =>
    ((s.perform call).1, (s.perform call).2.position) :: (s.perform call).2.answers calls

/-- The system has failed to hand out a line. -/
def Answer.IsFailure : Answer → Prop
  | .line outcome => ∃ fault, outcome = .error fault
  | .decoded outcome _ => Failed outcome
  | .skipped _ => False
  | .moved _ => False

/-- In one of the calls the system has failed to hand out a line, and no later call has moved the
stream to another offset. -/
def IsAhead (s : InputStream) (calls : List Call) : Prop :=
  ∃ before call later, calls = before ++ call :: later ∧
    ((s.after before).perform call).1.IsFailure ∧
    ∀ mid c rest, later = mid ++ .seekTo c :: rest →
      c.offset = (s.after (before ++ call :: mid)).offset

variable {s s' t : InputStream} {calls : List Call} {call : Call} {content : List UInt8} {gap : ℕ}

/-- The last call is made on the stream that the calls before it have left. -/
lemma after_concat : s.after (calls ++ [call]) = ((s.after calls).perform call).2 := by
  rw [after, List.foldl_append]
  rfl

/-- A relation that puts two streams at the same position and is kept by calls of a kind, which both
answer alike, makes them answer any number of such calls alike. -/
lemma answers_congr {R : InputStream → InputStream → Prop} {P : Call → Prop}
    (hposition : ∀ {s t}, R s t → s.position = t.position)
    (hperform : ∀ {s t call}, P call → R s t →
      (s.perform call).1 = (t.perform call).1 ∧ R (s.perform call).2 (t.perform call).2)
    (h : R s t) (hcalls : ∀ call ∈ calls, P call) : s.answers calls = t.answers calls := by
  induction calls generalizing s t with
  | nil => rfl
  | cons call calls ih =>
    rw [List.forall_mem_cons] at hcalls
    obtain ⟨hanswer, hrelated⟩ := hperform hcalls.1 h
    rw [answers, answers, hanswer, hposition hrelated, ih hrelated hcalls.2]

lemma not_isAhead_nil : ¬s.IsAhead [] := by
  rintro ⟨before, call, later, hcalls, -⟩
  simp at hcalls

/-- The last call fails, or it leaves things as they are unless it moves the stream. -/
lemma isAhead_concat_iff : s.IsAhead (calls ++ [call]) ↔
    ((s.after calls).perform call).1.IsFailure ∨
      s.IsAhead calls ∧ ∀ c, call = .seekTo c → c.offset = (s.after calls).offset := by
  constructor
  · rintro ⟨before, failing, later, hcalls, hfailure, hstays⟩
    rcases List.eq_nil_or_concat later with rfl | ⟨later, last, rfl⟩
    · obtain ⟨rfl, rfl⟩ := List.append_singleton_inj.1 hcalls
      exact .inl hfailure
    · rw [List.concat_eq_append, ← List.cons_append, ← List.append_assoc] at hcalls
      obtain ⟨rfl, rfl⟩ := List.append_singleton_inj.1 hcalls
      refine .inr ⟨⟨before, failing, later, rfl, hfailure, fun mid c rest hlater => ?_⟩, ?_⟩
      · exact hstays mid c (rest ++ [call]) (by simp [hlater])
      · rintro c rfl
        exact hstays later c [] (by simp)
  · rintro (hfailure | ⟨⟨before, failing, later, rfl, hfailure, hstays⟩, hlast⟩)
    · exact ⟨calls, call, [], rfl, hfailure, fun mid c rest h => by simp at h⟩
    · refine ⟨before, failing, later ++ [call], by simp, hfailure, fun mid c rest hlater => ?_⟩
      rcases List.eq_nil_or_concat rest with rfl | ⟨rest, last, rfl⟩
      · obtain ⟨rfl, rfl⟩ := List.append_singleton_inj.1 hlater
        exact hlast c rfl
      · rw [List.concat_eq_append, ← List.cons_append, ← List.append_assoc] at hlater
        obtain ⟨rfl, -⟩ := List.append_singleton_inj.1 hlater
        exact hstays mid c rest rfl

/-! ## Sources ahead of the offset -/

/-- A stream over the content that can be set back, with the source as many bytes ahead of the offset
as the gap tells. -/
structure Skewed (content : List UInt8) (gap : ℕ) (s : InputStream) : Prop where
  content_eq : s.source.content = content
  seekable : s.source.seekable = true
  rest : s.source.rest = content.drop (s.offset + gap)
  /-- A gap consists of bytes of the content. -/
  within : 0 < gap → s.offset + gap ≤ content.length

/-- The source of a new stream is where the offset is. -/
lemma skewed_ofBytes (content : List UInt8) (chunk : ℕ) :
    Skewed content 0 (ofBytes content true chunk) :=
  ⟨rfl, rfl, rfl, fun h => absurd h (lt_irrefl 0)⟩

namespace Skewed

/-- The bytes ahead are those from the offset on just if there is no gap. -/
lemma rest_eq_iff (h : Skewed content gap s) : s.source.rest = content.drop s.offset ↔ gap = 0 := by
  rw [h.rest]
  refine ⟨fun hdrop => ?_, by rintro rfl; rfl⟩
  have hlength := congrArg List.length hdrop
  rw [List.length_drop, List.length_drop] at hlength
  rcases Nat.eq_zero_or_pos gap with hgap | hgap
  · exact hgap
  · have hwithin := h.within hgap
    omega

/-- Bytes that are counted leave the gap as it is. -/
lemma advances (h : Skewed content gap s) (hs : Advances s s') : Skewed content gap s' := by
  obtain ⟨bytes, hrest, hoffset⟩ := hs.taken
  rw [h.rest] at hrest
  have hlength := congrArg List.length hrest
  rw [List.length_drop, List.length_append] at hlength
  refine ⟨hs.same.content.trans h.content_eq, hs.same.seekable.trans h.seekable, ?_, fun hgap => ?_⟩
  · have hdrop := congrArg (List.drop bytes.length) hrest
    rw [List.drop_left, List.drop_drop] at hdrop
    rw [← hdrop, hoffset, Nat.add_right_comm]
  · have hwithin := h.within hgap
    omega

/-- Bytes that are not counted widen the gap. -/
lemma slips (h : Skewed content gap s) (hs : Slips s s') :
    ∃ gap', 0 < gap' ∧ Skewed content gap' s' := by
  obtain ⟨bytes, line, hline, hrest, hoffset⟩ := hs.taken
  rw [h.rest] at hrest
  have hlength := congrArg List.length hrest
  rw [List.length_drop, List.length_append, List.length_append] at hlength
  have hpos : 0 < line.length := List.length_pos_iff.2 hline
  refine ⟨gap + line.length, Nat.add_pos_right gap hpos, hs.same.content.trans h.content_eq,
    hs.same.seekable.trans h.seekable, ?_, fun _ => ?_⟩
  · have hdrop := congrArg (List.drop (bytes ++ line).length) hrest
    rw [List.drop_left, List.drop_drop, List.length_append] at hdrop
    rw [← hdrop, hoffset]
    congr 1
    omega
  · omega

/-- A gap is widened by failures of the system, and only by these. -/
lemma tracks {α : Type} {r : Except ReadError α × InputStream} (h : Skewed content gap s)
    (hr : Tracks s r) : ∃ gap', Skewed content gap' r.2 ∧ (0 < gap' ↔ Failed r.1 ∨ 0 < gap) := by
  by_cases hfailed : Failed r.1
  · obtain ⟨gap', hgap', hskewed⟩ := h.slips (hr.slips hfailed)
    exact ⟨gap', hskewed, iff_of_true hgap' (.inl hfailed)⟩
  · exact ⟨gap, h.advances (hr.advances hfailed), (or_iff_right hfailed).symm⟩

/-- A seek succeeds.  It leaves the gap as it is at the offset of the stream, and none elsewhere. -/
lemma seekTo (h : Skewed content gap s) (c : Cursor) :
    ∃ s', s.seekTo c = (.ok (), s') ∧ s'.offset = c.offset ∧ s'.line = c.line ∧
      Skewed content (if c.offset = s.offset then gap else 0) s' := by
  unfold InputStream.seekTo
  split
  next hoffset => exact ⟨_, rfl, hoffset.symm, rfl, ⟨h.content_eq, h.seekable, h.rest, h.within⟩⟩
  next hoffset =>
    rw [if_pos h.seekable]
    refine ⟨_, rfl, rfl, rfl, h.content_eq, h.seekable, ?_, fun hgap => absurd hgap (lt_irrefl 0)⟩
    rw [ByteSource.rest_jump, h.content_eq]
    rfl

/-- A call widens the gap if the system fails, and closes it if it moves the stream. -/
lemma perform (h : Skewed content gap s) (call : Call) :
    ∃ gap', Skewed content gap' (s.perform call).2 ∧
      (0 < gap' ↔ (s.perform call).1.IsFailure ∨
        0 < gap ∧ ∀ c, call = .seekTo c → c.offset = s.offset) := by
  cases call with
  | readLine =>
    rw [and_iff_left nofun]
    cases hread : s.readLine with
    | mk outcome s' =>
      simp only [InputStream.perform, hread]
      cases outcome with
      | ok text =>
        exact ⟨gap, h.advances (advances_readLine hread), (or_iff_right (by rintro ⟨e, ⟨⟩⟩)).symm⟩
      | error e =>
        obtain ⟨gap', hgap', hskewed⟩ := h.slips (slips_readLine hread)
        exact ⟨gap', hskewed, iff_of_true hgap' (.inl ⟨e, rfl⟩)⟩
  | skipWhitespace =>
    rw [and_iff_left nofun]
    exact ⟨gap, h.advances s.advances_skipWhitespace, (or_iff_right id).symm⟩
  | seekTo c =>
    -- a stream that stands at the cursor is not moved, so its gap stays; any other one loses it
    obtain ⟨s', hseek, -, -, hskewed⟩ := h.seekTo c
    simp only [InputStream.perform, hseek]
    refine ⟨_, hskewed, ?_⟩
    simp only [Call.seekTo.injEq, forall_eq', Answer.IsFailure, false_or]
    split
    next hoffset => exact (and_iff_left hoffset).symm
    next hoffset => exact iff_of_false (lt_irrefl 0) fun hgap => hoffset hgap.2
  | next r =>
    rw [and_iff_left nofun]
    exact h.tracks (r.tracks_next s)

/-- The source is ahead of the offset just if calls have left it so. -/
lemma after (h : Skewed content 0 s) (calls : List Call) :
    ∃ gap, Skewed content gap (s.after calls) ∧ (0 < gap ↔ s.IsAhead calls) := by
  induction calls using List.reverseRecOn with
  | nil => exact ⟨0, h, iff_of_false (lt_irrefl 0) not_isAhead_nil⟩
  | append_singleton calls call ih =>
    obtain ⟨gap, hskewed, hgap⟩ := ih
    obtain ⟨gap', hskewed', hgap'⟩ := hskewed.perform call
    rw [after_concat]
    refine ⟨gap', hskewed', ?_⟩
    rw [hgap', isAhead_concat_iff, hgap]

end Skewed

/-! ## The same from then on -/

/-- Two streams over the content that can be set back agree. -/
structure Alike (content : List UInt8) (s t : InputStream) : Prop where
  agrees : s.Agrees t
  left : ∃ gap, Skewed content gap s
  right : ∃ gap, Skewed content gap t

/-- Streams that are alike are moved alike. -/
lemma Alike.seekTo (h : Alike content s t) (c : Cursor) :
    (s.seekTo c).1 = (t.seekTo c).1 ∧ (s.seekTo c).2.Agrees (t.seekTo c).2 := by
  obtain ⟨gap, hs⟩ := h.left
  obtain ⟨gap', ht⟩ := h.right
  have hahead : content.drop (s.offset + gap) = content.drop (t.offset + gap') := by
    rw [← hs.rest, ← ht.rest, h.agrees.rest]
  obtain ⟨s', hseek, hoffset, hline, hs'⟩ := hs.seekTo c
  obtain ⟨t', hseek', hoffset', hline', ht'⟩ := ht.seekTo c
  rw [hseek, hseek']
  refine ⟨rfl, ?_, hoffset.trans hoffset'.symm, hline.trans hline'.symm⟩
  rw [hs'.rest, ht'.rest, hoffset, hoffset', ← h.agrees.offset]
  split
  next hstays =>
    rw [hstays, hahead, h.agrees.offset]
  next => rfl

/-- Streams that are alike answer a call in the same way, and stay alike. -/
lemma Alike.perform (h : Alike content s t) (call : Call) :
    (s.perform call).1 = (t.perform call).1 ∧
      Alike content (s.perform call).2 (t.perform call).2 := by
  obtain ⟨gap, hs⟩ := h.left
  obtain ⟨gap', ht⟩ := h.right
  obtain ⟨gapₛ, hs', -⟩ := hs.perform call
  obtain ⟨gapₜ, ht', -⟩ := ht.perform call
  have hcall : (s.perform call).1 = (t.perform call).1 ∧
      (s.perform call).2.Agrees (t.perform call).2 := by
    cases call with
    | readLine =>
      obtain ⟨houtcome, hagrees⟩ := uniform_readLine h.agrees
      exact ⟨congrArg Answer.line houtcome, hagrees⟩
    | skipWhitespace =>
      obtain ⟨houtcome, hagrees⟩ := uniform_skipWhitespace h.agrees
      exact ⟨congrArg Answer.skipped houtcome, hagrees⟩
    | seekTo c =>
      obtain ⟨houtcome, hagrees⟩ := h.seekTo c
      exact ⟨congrArg Answer.moved houtcome, hagrees⟩
    | next r =>
      obtain ⟨houtcome, hreader, hagrees⟩ := Reader.next_of_agrees (r := r) h.agrees
      exact ⟨congrArg₂ Answer.decoded houtcome hreader, hagrees⟩
  exact ⟨hcall.1, hcall.2, ⟨gapₛ, hs'⟩, gapₜ, ht'⟩

lemma Alike.answers_eq (h : Alike content s t) (calls : List Call) :
    s.answers calls = t.answers calls :=
  answers_congr (fun h => h.agrees.position_eq) (fun _ h => h.perform _) h fun _ _ => True.intro

/-- **When a seek makes up for what was done before.**  After any calls on a stream that can be set
back, whatever came of them, a seek succeeds.  It leaves the stream with the bytes ahead and the counts
that a new stream over the same bytes has after that seek, unless the stream believes to be at the
offset of the cursor while its source is ahead: in one of the calls a line was no text, and no later call
has moved the stream to another offset.  Once the two streams agree, they answer all further calls in
the same way and stand at the same positions. -/
theorem seekTo_recovers_iff (content : List UInt8) (chunk chunk' : ℕ) (calls : List Call)
    (c : Cursor) :
    let start := ofBytes content true chunk
    let used := start.after calls
    ∃ moved fresh, used.seekTo c = (.ok (), moved) ∧
      (ofBytes content true chunk').seekTo c = (.ok (), fresh) ∧
      (moved.Agrees fresh ↔ ¬(c.offset = used.offset ∧ start.IsAhead calls)) ∧
      (moved.Agrees fresh → ∀ later, moved.answers later = fresh.answers later) := by
  intro start used
  obtain ⟨gap, hused, hgap⟩ := (skewed_ofBytes content chunk).after calls
  obtain ⟨moved, hseek, hoffset, hline, hmoved⟩ := hused.seekTo c
  obtain ⟨fresh, hseek', hoffset', hline', hfresh⟩ := (skewed_ofBytes content chunk').seekTo c
  rw [ite_self] at hfresh
  refine ⟨moved, fresh, hseek, hseek', ?_, fun hagrees => ?_⟩
  · have hrest : moved.Agrees fresh ↔ moved.source.rest = fresh.source.rest :=
      ⟨Agrees.rest, fun h => ⟨h, hoffset.trans hoffset'.symm, hline.trans hline'.symm⟩⟩
    rw [hrest, hfresh.rest, Nat.add_zero, hoffset', ← hoffset, hmoved.rest_eq_iff, hoffset, ← hgap]
    split
    next hstays => rw [and_iff_right hstays, Nat.pos_iff_ne_zero, not_not]
    next hmoves => exact iff_of_true rfl fun h => hmoves h.1
  · exact Alike.answers_eq ⟨hagrees, ⟨_, hmoved⟩, _, hfresh⟩

/-- A stream that has failed on its first line believes to be at its start.  A seek to the second line
makes up for that, and a seek to the start does not. -/
theorem seekTo_recovers_beyond_invalid_line :
    let start (chunk : ℕ) := ofBytes [0xff, 0x0a, 0x61, 0x0a] true chunk
    let used := (start 1).after [.readLine]
    (∃ moved fresh, used.seekTo ⟨2, 1, false⟩ = (.ok (), moved) ∧
      (start 64).seekTo ⟨2, 1, false⟩ = (.ok (), fresh) ∧ moved.Agrees fresh ∧
      moved.answers [.readLine, .skipWhitespace] = fresh.answers [.readLine, .skipWhitespace]) ∧
    ∃ moved fresh, used.seekTo ⟨0, 0, false⟩ = (.ok (), moved) ∧
      (start 64).seekTo ⟨0, 0, false⟩ = (.ok (), fresh) ∧ ¬moved.Agrees fresh := by
  intro start used
  have hoffset : used.offset = 0 := by decide +kernel
  have hfailure : (start 1).readLine.1 = .error .invalidUtf8 := by decide +kernel
  have hahead : (start 1).IsAhead [.readLine] :=
    ⟨[], .readLine, [], rfl, ⟨_, hfailure⟩, fun mid c rest h => by simp at h⟩
  obtain ⟨moved, fresh, hseek, hseek', hiff, hanswers⟩ :=
    seekTo_recovers_iff [0xff, 0x0a, 0x61, 0x0a] 1 64 [.readLine] ⟨2, 1, false⟩
  obtain ⟨back, fresh', hback, hback', hiff', -⟩ :=
    seekTo_recovers_iff [0xff, 0x0a, 0x61, 0x0a] 1 64 [.readLine] ⟨0, 0, false⟩
  have hagrees : moved.Agrees fresh := hiff.2 fun h => by simpa [used, start, hoffset] using h.1
  refine ⟨⟨moved, fresh, hseek, hseek', hagrees, hanswers hagrees _⟩, back, fresh', hback, hback', ?_⟩
  exact hiff'.not.2 (not_not.2 ⟨hoffset.symm, hahead⟩)

/-- A line that is no text was read, and the stream is set back to its start, where it believes to be
already: it hands out the second line, and a new stream that is moved to its start fails on the
first. -/
theorem readLine_ne_after_seekTo :
    let start := ofBytes [0xff, 0x0a, 0x61, 0x0a] true 1
    let used := start.after [.readLine]
    used.offset = 0 ∧ (used.seekTo ⟨0, 0, false⟩).1 = .ok () ∧
      (used.seekTo ⟨0, 0, false⟩).2.readLine.1 = .ok "a\n" ∧
      (start.seekTo ⟨0, 0, false⟩).1 = .ok () ∧
      (start.seekTo ⟨0, 0, false⟩).2.readLine.1 = .error .invalidUtf8 := by
  decide +kernel

end LinearInterchange.InputStream
