import LinearInterchange.Input.Position
import LinearInterchange.Input.Source

/-! # Input streams

An input stream is a source of bytes that is read by lines and knows how many bytes and lines it
has handed out. A line that is not UTF-8 is consumed from the source but not counted, so the
source may be ahead of the count. -/

namespace LinearInterchange

/-- A source with the number of bytes and of lines that were handed out. -/
structure InputStream where
  source : ByteSource
  offset : Nat := 0
  line : Nat := 0

namespace InputStream

/-- A stream over bytes, at their start. -/
def ofBytes (content : List UInt8) (seekable : Bool) (chunk : Nat) : InputStream where
  source := .ofBytes content seekable chunk

/-- The position of the next byte. -/
def position (s : InputStream) : Position :=
  ⟨s.line + 1, s.offset⟩

/-- The cursor of the next byte. -/
def cursor (s : InputStream) (atEnd : Bool) : Cursor :=
  ⟨s.offset, s.line, atEnd⟩

/-- Reads up to and including the next line feed. The text is empty at the end of the stream. -/
def readLine (s : InputStream) : Except SystemFault String × InputStream :=
  let (bytes, source) := s.source.takeLine
  match String.fromUTF8? bytes.toByteArray with
  | none => (.error .invalidUtf8, { s with source })
  | some text =>
    if bytes.isEmpty then (.ok text, { s with source })
    else (.ok text, { source, offset := s.offset + bytes.length, line := s.line + 1 })

/-- Skips blanks, tabs, form feeds and line ends. Tells whether nothing follows. -/
def skipWhitespace (s : InputStream) : Bool × InputStream :=
  let (n, feeds, ended, source) := s.source.skipRun
  (ended, { source, offset := s.offset + n, line := s.line + feeds })

/-- Moves the stream to a cursor. A seekable stream jumps there; another one can only skip bytes,
and where they do not suffice they are gone while the counts stay. A cursor at the current offset
sets the line and nothing else. -/
def seekTo (s : InputStream) (c : Cursor) : Except SystemFault Unit × InputStream :=
  if c.offset = s.offset then (.ok (), { s with line := c.line })
  else if s.source.seekable then
    (.ok (), { source := s.source.jump c.offset, offset := c.offset, line := c.line })
  else if c.offset < s.offset then (.error .cannotRewind, s)
  else
    let skip := c.offset - s.offset
    let source := s.source.advance skip
    if s.source.rest.length < skip then (.error .unexpectedEnd, { s with source })
    else (.ok (), { source, offset := c.offset, line := c.line })

/-- A read line comes off the source, whether or not it can be handed out. -/
theorem source_readLine (s : InputStream) : s.readLine.2.source = s.source.takeLine.2 := by
  simp only [readLine]
  split
  · rfl
  · split <;> rfl

/-- A line that holds anything leaves less to read. -/
theorem length_rest_readLine {s s' : InputStream} {text : String}
    (h : s.readLine = (.ok text, s')) (hne : text ≠ "") :
    s'.source.rest.length < s.source.rest.length := by
  have hbytes : s.source.takeLine.1 ≠ [] := by
    intro hnil
    simp only [readLine, hnil] at h
    apply hne
    have hempty : String.fromUTF8? ([] : List UInt8).toByteArray = some "" := by decide
    rw [hempty] at h
    exact (Except.ok.inj (congrArg Prod.fst h)).symm
  have hsource : s'.source = s.source.takeLine.2 := by rw [← source_readLine, h]
  rw [hsource]
  exact ByteSource.length_rest_takeLine hbytes

/-- Reading a line leaves no more than there was. -/
theorem length_rest_readLine_le (s : InputStream) :
    s.readLine.2.source.rest.length ≤ s.source.rest.length := by
  rw [source_readLine, ← ByteSource.takeLine_append_rest s.source, List.length_append]
  exact Nat.le_add_left ..

/-- Skipping white space leaves no more than there was. -/
theorem length_rest_skipWhitespace_le (s : InputStream) :
    s.skipWhitespace.2.source.rest.length ≤ s.source.rest.length :=
  ByteSource.length_rest_skipRun_le s.source

/-- What a step over a line leads to: going on with the next line, or stopping after this one. -/
inductive LineStep (σ : Type) where
  | more (state : σ)
  | done (state : σ)

/-- Reads lines and lets each one, with its position, change a state, until a step stops, refuses
or the stream ends. Returns the state and the position of the last line that was read, or `last`
if there was none. -/
def foldLines {σ : Type} (step : σ → Position → String → Except ReadError (LineStep σ))
    (state : σ) (last : Position) (s : InputStream) :
    Except ReadError (σ × Position) × InputStream :=
  match _h : s.readLine with
  | (.error e, s') => (.error (.system e), s')
  | (.ok text, s') =>
    if _hne : text = "" then (.ok (state, last), s')
    else
      match step state s.position text with
      | .error e => (.error e, s')
      | .ok (.done state) => (.ok (state, s.position), s')
      | .ok (.more state) => foldLines step state s.position s'
termination_by s.source.rest.length
decreasing_by exact length_rest_readLine _h _hne

/-- Reading lines leaves less than there was, unless there was no line. -/
theorem foldLines_ok {σ : Type}
    {step : σ → Position → String → Except ReadError (LineStep σ)} {state state' : σ}
    {last last' : Position} {s s' : InputStream}
    (h : foldLines step state last s = (.ok (state', last'), s')) :
    state' = state ∧ s'.source.rest.length ≤ s.source.rest.length ∨
      s'.source.rest.length < s.source.rest.length := by
  fun_induction foldLines step state last s with
  | case1 => simp at h
  | case2 state last s s₁ hread =>
    simp only [Prod.mk.injEq, Except.ok.injEq] at h
    obtain ⟨⟨rfl, -⟩, rfl⟩ := h
    have := length_rest_readLine_le s
    rw [hread] at this
    exact .inl ⟨rfl, this⟩
  | case3 => simp at h
  | case4 state last s text s₁ hread hne state₁ _ =>
    simp only [Prod.mk.injEq] at h
    exact .inr (h.2 ▸ length_rest_readLine hread hne)
  | case5 state last s text s₁ hread hne state₁ _ ih =>
    have hlt := length_rest_readLine hread hne
    rcases ih h with ⟨-, hle⟩ | hle <;> omega

end InputStream

end LinearInterchange
