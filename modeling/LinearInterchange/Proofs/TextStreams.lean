import LinearInterchange.Conversion.Reader
import LinearInterchange.Proofs.StreamReading

/-!
# Streams over texts

The bytes of a text are cut into lines where the text is, so a stream over a text hands out the
lines of the text and never fails (`readLine_of_text`, `exists_readLine`).  What a loop over lines
makes of such a stream is then a matter of the lines alone, as far as it does not depend on where
they stand (`foldLines_lines`).

Where an error is found is one thing and what kind of error it is another; texts that are told apart
only by the places of their parts are compared by the kinds of their errors (`ReadError.kind`).
-/

namespace LinearInterchange

namespace Text

/-! ## Lines of texts -/

/-- The bytes of characters. -/
def utf8 (cs : List Char) : List UInt8 :=
  cs.flatMap String.utf8EncodeChar

/-- The lines of a text, each with the line feed that ends it. -/
def lines : List Char → List (List Char)
  | [] => []
  | c :: cs =>
    if c = '\n' then [c] :: lines cs
    else
      match lines cs with
      | [] => [[c]]
      | l :: ls => (c :: l) :: ls

variable {c : Char} {cs ds : List Char}

lemma bytesOf_eq_utf8 (s : String) : bytesOf s = utf8 s.toList :=
  bytesOf_eq_flatMap s

lemma bytesOf_ofList (cs : List Char) : bytesOf (String.ofList cs) = utf8 cs := by
  rw [bytesOf_eq_utf8, String.toList_ofList]

lemma utf8_append (cs ds : List Char) : utf8 (cs ++ ds) = utf8 cs ++ utf8 ds :=
  List.flatMap_append

lemma utf8_flatten (ls : List (List Char)) : (ls.map utf8).flatten = utf8 ls.flatten := by
  induction ls with
  | nil => rfl
  | cons l ls ih => rw [List.map_cons, List.flatten_cons, List.flatten_cons, utf8_append, ih]

lemma utf8_cons (c : Char) (cs : List Char) : utf8 (c :: cs) = String.utf8EncodeChar c ++ utf8 cs :=
  List.flatMap_cons

lemma utf8_injective : Function.Injective utf8 := by
  intro cs ds h
  rw [← bytesOf_ofList, ← bytesOf_ofList] at h
  rw [← String.toList_ofList (l := cs), bytesOf_injective h, String.toList_ofList]

lemma utf8_lineFeed : utf8 ['\n'] = [ByteSource.lineFeed] := by
  decide

/-- No other character has the byte of a line feed. -/
lemma lineFeed_notMem_utf8EncodeChar (h : c ≠ '\n') :
    ByteSource.lineFeed ∉ String.utf8EncodeChar c := by
  intro hmem
  have hfeed : ByteSource.lineFeed.toNat = 10 := rfl
  have hnat : c.toNat = 10 := by
    rcases toNat_of_mem_utf8EncodeChar hmem with heq | hge <;> omega
  exact h (by rw [← Char.ofNat_toNat c, hnat])

lemma lineFeed_notMem_utf8 (h : '\n' ∉ cs) : ByteSource.lineFeed ∉ utf8 cs := by
  rw [← bytesOf_ofList]
  exact lineFeed_not_mem_bytesOf (by rwa [String.toList_ofList])

/-- The lines put together are the text. -/
lemma flatten_lines (cs : List Char) : (lines cs).flatten = cs := by
  induction cs with
  | nil => rfl
  | cons c cs ih =>
    rw [lines]
    split
    · rw [List.flatten_cons, ih, List.singleton_append]
    · split
      next hnil =>
        rw [hnil] at ih
        rw [← ih]
        rfl
      next l ls hcons =>
        rw [hcons] at ih
        rw [← ih]
        rfl

/-- The first line of a text goes up to its only line feed, unless it is the last one. -/
lemma exists_front {l : List Char} {ls : List (List Char)} (h : lines cs = l :: ls) :
    ∃ front, '\n' ∉ front ∧ (l = front ++ ['\n'] ∨ l = front ∧ ls = []) := by
  induction cs generalizing l ls with
  | nil => cases h
  | cons c cs ih =>
    rw [lines] at h
    split at h
    next hc =>
      obtain ⟨rfl, -⟩ := List.cons.inj h
      exact ⟨[], List.not_mem_nil, .inl (hc ▸ rfl)⟩
    next hc =>
      split at h
      next =>
        obtain ⟨rfl, rfl⟩ := List.cons.inj h
        exact ⟨[c], by simpa using Ne.symm hc, .inr ⟨rfl, rfl⟩⟩
      next l' ls' hcons =>
        obtain ⟨rfl, rfl⟩ := List.cons.inj h
        obtain ⟨front, hfront, hl⟩ := ih hcons
        refine ⟨c :: front, by simpa [hfront] using Ne.symm hc, hl.imp ?_ ?_⟩
        · exact congrArg (c :: ·)
        · exact And.imp_left (congrArg (c :: ·))

/-- Bytes in front of the first line feed belong to the first line. -/
lemma cutLines_append {bs : List UInt8} (h : ByteSource.lineFeed ∉ bs) (hne : bs ≠ [])
    (more : List UInt8) :
    ByteSource.cutLines (bs ++ more) =
      match ByteSource.cutLines more with
      | [] => [bs]
      | l :: ls => (bs ++ l) :: ls := by
  induction bs with
  | nil => exact absurd rfl hne
  | cons b bs ih =>
    obtain ⟨hb, hbs⟩ := not_or.1 (mt List.mem_cons.2 h)
    rw [List.cons_append, ByteSource.cutLines, if_neg (Ne.symm hb)]
    cases bs with
    | nil =>
      rw [List.nil_append]
      cases ByteSource.cutLines more <;> rfl
    | cons b' bs =>
      rw [ih hbs (List.cons_ne_nil _ _)]
      cases ByteSource.cutLines more <;> rfl

/-- The bytes of a text are cut into the bytes of its lines. -/
lemma cutLines_utf8 (cs : List Char) : ByteSource.cutLines (utf8 cs) = (lines cs).map utf8 := by
  induction cs with
  | nil => rfl
  | cons c cs ih =>
    rw [lines]
    split
    next hc =>
      subst hc
      rw [utf8_cons, List.map_cons, utf8_lineFeed, ← ih]
      rfl
    next hc =>
      have hne : String.utf8EncodeChar c ≠ [] := by
        intro hnil
        have hlength := String.length_utf8EncodeChar c
        rw [hnil] at hlength
        exact absurd hlength.symm (Nat.ne_of_gt c.utf8Size_pos)
      rw [utf8_cons, cutLines_append (lineFeed_notMem_utf8EncodeChar hc) hne, ih]
      cases lines cs with
      | nil => simp [utf8]
      | cons l ls => simp [utf8]

end Text

namespace InputStream

open Text

variable {s s' : InputStream} {cs : List Char}

/-! ## Reading lines of texts -/

/-- The first line of a text ahead is read, and the other ones stay ahead. -/
lemma readLine_of_text {l : List Char} {ls : List (List Char)}
    (h : ByteSource.cutLines s.source.rest = (l :: ls).map utf8) :
    String.ofList l ≠ "" ∧ ∃ s', s.readLine = (.ok (.ofList l), s') ∧
      ByteSource.cutLines s'.source.rest = ls.map utf8 := by
  rw [List.map_cons, ← bytesOf_ofList] at h
  exact readLine_of_cutLines h

/-- Where no line is ahead, the stream is at its end. -/
lemma readLine_of_no_line (h : ByteSource.cutLines s.source.rest = []) :
    ∃ s', s.readLine = (.ok "", s') := by
  refine readLine_of_rest_eq_nil ?_
  rw [← ByteSource.flatten_cutLines s.source.rest, h]
  rfl

/-- The text is cut off in front of the bytes as a line is: it goes up to its only line feed, or up
to the end if there is none. -/
def CutOff (text : String) (more : List UInt8) : Prop :=
  ∃ front, '\n' ∉ front ∧ (text.toList = front ++ ['\n'] ∨ text.toList = front ∧ more = [])

/-- Of a text ahead the first line is read, and the text after it stays ahead. -/
lemma exists_readLine (h : s.source.rest = utf8 cs) :
    ∃ text s', s.readLine = (.ok text, s') ∧ s.source.rest = bytesOf text ++ s'.source.rest ∧
      CutOff text s'.source.rest ∧ ∃ ds, s'.source.rest = utf8 ds := by
  have hlines : ByteSource.cutLines s.source.rest = (lines cs).map utf8 := by
    rw [h, cutLines_utf8]
  cases hls : lines cs with
  | nil =>
    rw [hls] at hlines
    obtain ⟨s', hread⟩ := readLine_of_no_line hlines
    have hnil : s.source.rest = [] := by
      rw [← ByteSource.flatten_cutLines s.source.rest, hlines]
      rfl
    have hle := length_rest_readLine_le s
    rw [hread, hnil, List.length_nil, Nat.le_zero, List.length_eq_zero_iff] at hle
    refine ⟨"", s', hread, ?_, ⟨[], List.not_mem_nil, .inr ⟨rfl, hle⟩⟩, [], hle⟩
    rw [hnil, hle]
    rfl
  | cons l ls =>
    rw [hls] at hlines
    obtain ⟨-, s', hread, hmore⟩ := readLine_of_text hlines
    have hrest : s'.source.rest = utf8 ls.flatten := by
      rw [← ByteSource.flatten_cutLines s'.source.rest, hmore, utf8_flatten]
    -- the line is its front and a feed; the last one may go without the feed
    obtain ⟨front, hfront, hl⟩ := exists_front hls
    refine ⟨_, s', hread, ?_, ⟨front, hfront, ?_⟩, _, hrest⟩
    · rw [h, ← flatten_lines cs, hls, List.flatten_cons, utf8_append, bytesOf_ofList, hrest]
    · rw [String.toList_ofList]
      refine hl.imp_right (And.imp_right fun hnil => ?_)
      rw [hrest, hnil]
      rfl

/-! ## Loops over lines of texts -/

section Loops

variable {ε σ τ : Type}

/-- The state of a step, changed. -/
def LineStep.map (f : σ → τ) : LineStep σ → LineStep τ
  | .more state => .more (f state)
  | .done state => .done (f state)

/-- Lets lines with the given texts change a state one after another, until a step stops or
refuses. -/
def overLines (step : σ → List Char → Except ε (LineStep σ)) : σ → List (List Char) → Except ε σ
  | state, [] => .ok state
  | state, l :: ls =>
    match step state l with
    | .error e => .error e
    | .ok (.done state) => .ok state
    | .ok (.more state) => overLines step state ls

/-- What a loop over the lines of a text comes to is a matter of the lines, as far as its steps do
not depend on where the lines stand. -/
lemma foldLines_lines {step : σ → Position → String → Except ReadError (LineStep σ)}
    {step' : τ → List Char → Except ε (LineStep τ)} {sort : ReadError → ε} {view : σ → τ}
    (hstep : ∀ state pos l, ((step state pos (.ofList l)).mapError sort).map (LineStep.map view) =
      step' (view state) l)
    {ls : List (List Char)} (state : σ) (last : Position) {s : InputStream}
    (h : ByteSource.cutLines s.source.rest = ls.map utf8) :
    ((foldLines step state last s).1.mapError sort).map (fun r => view r.1) =
      overLines step' (view state) ls := by
  induction ls generalizing state last s with
  | nil =>
    obtain ⟨s', hread⟩ := readLine_of_no_line h
    rw [foldLines, hread]
    rfl
  | cons l ls ih =>
    obtain ⟨hne, s', hread, hrest⟩ := readLine_of_text h
    have hview := hstep state s.position l
    rw [foldLines, hread, overLines, ← hview]
    simp only [dif_neg hne]
    cases step state s.position (.ofList l) with
    | error e => rfl
    | ok next =>
      cases next with
      | done state' => rfl
      | more state' => exact ih state' s.position hrest

end Loops

end InputStream

/-! ## Kinds of errors -/

/-- The kinds of errors of readers. -/
inductive ReadError.Kind where
  | malformed
  | unsupported
  | defect
  | system
  deriving DecidableEq

/-- The kind of a refusal. -/
def Refusal.kind : Refusal → ReadError.Kind
  | .malformed _ => .malformed
  | .unsupported _ => .unsupported
  | .defect _ => .defect

/-- The kind of an error. -/
def ReadError.kind : ReadError → ReadError.Kind
  | .refused _ refusal => refusal.kind
  | .system _ => .system

lemma mapError_map {ε ε' α β : Type} (x : Except ε α) (f : α → β) (g : ε → ε') :
    (x.map f).mapError g = (x.mapError g).map f := by
  cases x <;> rfl

/-- What the first call of a reader comes to is what its format makes of the stream. -/
lemma Reader.next_fresh (f : InputFormat) (input : InputStream) :
    (Reader.next ⟨f, {}⟩ input).1 = (f.decode input).1.map Prod.fst := by
  rw [Reader.next, if_neg Bool.false_ne_true]
  dsimp only
  obtain ⟨outcome, input'⟩ := f.decode input
  cases outcome <;> rfl

/-- The only instance of a stream is what its format makes of the stream. -/
lemma InputFormat.fst_single (r : Except ReadError Instance × InputStream) :
    (InputFormat.decode.single r).1.map Prod.fst = r.1.map some := by
  obtain ⟨outcome, input⟩ := r
  cases outcome <;> rfl

end LinearInterchange
