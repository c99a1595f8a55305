import LinearInterchange.Proofs.LineStream
import LinearInterchange.Proofs.NumberText
import Mathlib.Data.List.DropRight

/-!
# Reading through a stream

Some readers stop within a stream and go on from there, so it matters where they stop.  The lemmas
of this file follow the offset and what is left of a stream through the skipping of white space and
the reading of lines.

A loop over lines whose texts are known goes through known states (`Steps`), and a loop that succeeds
has gone over the first lines of the stream (`Passes`).
-/

namespace LinearInterchange

open Text

/-! ## White space between entries -/

namespace ByteSource

/-- What follows a run is what is left when its bytes are dropped. -/
lemma drop_length_takeWhile (p : UInt8 → Bool) (bs : List UInt8) :
    bs.drop (bs.takeWhile p).length = bs.dropWhile p := by
  have h : (bs.takeWhile p ++ bs.dropWhile p).drop (bs.takeWhile p).length = bs.dropWhile p :=
    List.drop_left
  rwa [List.takeWhile_append_dropWhile] at h

/-- The size of the chunks does not matter: what is skipped is the longest run of all bytes that
are to come. -/
lemma skipRun_spec (s : ByteSource) :
    s.skipRun.1 = (s.rest.takeWhile isSkipped).length ∧
      s.skipRun.2.1 = (s.rest.takeWhile isSkipped).count lineFeed ∧
      s.skipRun.2.2.1 = (s.rest.dropWhile isSkipped).isEmpty ∧
      s.skipRun.2.2.2.rest = s.rest.dropWhile isSkipped := by
  fun_induction skipRun s with
  | case1 s s' h =>
    have hrest : s'.rest = s.rest := rest_fill s
    have hnil := (buffered_fill_eq_nil_iff s).1 h
    simp [hrest, hnil]
  | case2 s s' h piece feeds hlt =>
    -- the run ends within what is fetched
    have hrest : s.rest = s'.buffered ++ s'.unread := (rest_fill s).symm
    have hdrop := drop_length_takeWhile isSkipped s'.buffered
    have hne : (s'.buffered.dropWhile isSkipped).isEmpty = false := by
      rw [List.isEmpty_eq_false_iff, ← hdrop, ne_eq, List.drop_eq_nil_iff]
      exact Nat.not_le_of_lt hlt
    rw [hrest, List.takeWhile_append, List.dropWhile_append, if_neg (Nat.ne_of_lt hlt), hne]
    refine ⟨rfl, rfl, ?_, ?_⟩
    · rw [List.isEmpty_eq_false_iff] at hne
      simp [hne]
    · rw [rest_consume (Nat.le_of_lt hlt), rest, List.drop_append_of_le_length (Nat.le_of_lt hlt),
        hdrop]
      rfl
  | case3 s s' h piece feeds hlt n k ended s'' heq ih =>
    -- all that is fetched belongs to the run, which goes on with what is not
    have hrest : s.rest = s'.buffered ++ s'.unread := (rest_fill s).symm
    have hlength : piece.length = s'.buffered.length :=
      Nat.le_antisymm (List.takeWhile_prefix _).length_le (Nat.le_of_not_lt hlt)
    have hempty : (s'.buffered.dropWhile isSkipped).isEmpty = true := by
      rw [← drop_length_takeWhile, List.isEmpty_iff, List.drop_eq_nil_iff]
      exact hlength.ge
    have hmore : (s'.consume piece.length).rest = s'.unread := by
      rw [rest_consume hlength.le, rest, hlength, List.drop_left]
    rw [heq, hmore] at ih
    obtain ⟨hn, hk, hended, hleft⟩ := ih
    have hpiece : piece = s'.buffered := (List.takeWhile_prefix _).eq_of_length hlength
    rw [hrest, List.takeWhile_append, List.dropWhile_append, if_pos hlength, hempty,
      List.length_append, List.count_append]
    exact ⟨congrArg₂ (· + ·) hlength hn,
      congrArg₂ (· + ·) (congrArg (List.count lineFeed) hpiece) hk, hended, hleft⟩

/-- A byte of a character is skipped only if the character is white space. -/
lemma isSkipped_of_mem_utf8EncodeChar {c : Char} {b : UInt8} (hc : isBlank c = false)
    (h : b ∈ String.utf8EncodeChar c) : isSkipped b = false := by
  rw [Bool.eq_false_iff]
  intro hb
  simp only [isSkipped, Bool.or_eq_true, beq_iff_eq, or_assoc] at hb
  have hcode : c.toNat = 9 ∨ c.toNat = 10 ∨ c.toNat = 12 ∨ c.toNat = 13 ∨ c.toNat = 32 := by
    have hbyte := toNat_of_mem_utf8EncodeChar h
    rcases hb with rfl | rfl | rfl | rfl | rfl <;> simp at hbyte <;> omega
  simp only [isBlank, blankRanges, List.any_cons, List.any_nil, Bool.or_false,
    Bool.or_eq_false_iff, Bool.and_eq_false_iff, decide_eq_false_iff_not] at hc
  omega

end ByteSource

namespace InputStream

variable {s : InputStream}

/-- White space is skipped up to a byte that is none, and the offset moves along. -/
lemma skipWhitespace_of_rest_eq (blanks more : List UInt8)
    (hblanks : ∀ b ∈ blanks, ByteSource.isSkipped b = true)
    (hmore : ∀ b ∈ more.head?, ByteSource.isSkipped b = false)
    (hrest : s.source.rest = blanks ++ more) :
    ∃ s', s.skipWhitespace = (more.isEmpty, s') ∧ s'.source.rest = more ∧
      s'.offset = s.offset + blanks.length := by
  have hstop : more.takeWhile ByteSource.isSkipped = [] ∧
      more.dropWhile ByteSource.isSkipped = more := by
    cases more with
    | nil => exact ⟨rfl, rfl⟩
    | cons b more =>
      have hb : ¬ByteSource.isSkipped b = true := by simp [hmore b rfl]
      exact ⟨List.takeWhile_cons_of_neg hb, List.dropWhile_cons_of_neg hb⟩
  obtain ⟨hcount, -, hended, hleft⟩ := s.source.skipRun_spec
  rw [hrest, List.takeWhile_append_of_pos hblanks, hstop.1, List.append_nil] at hcount
  rw [hrest, List.dropWhile_append_of_pos hblanks, hstop.2] at hended hleft
  refine ⟨s.skipWhitespace.2, ?_, hleft, ?_⟩
  · exact Prod.ext hended rfl
  · show s.offset + s.source.skipRun.1 = _
    rw [hcount]

/-! ## Lines -/

/-- Bytes that denote a text are the bytes of the text. -/
lemma bytesOf_of_fromUTF8? {bs : List UInt8} {text : String}
    (h : String.fromUTF8? bs.toByteArray = some text) : bytesOf text = bs := by
  unfold String.fromUTF8? at h
  split at h
  · obtain rfl := Option.some.inj h
    show bs.toByteArray.data.toList = bs
    rw [List.data_toByteArray]
  · cases h

/-- The text of a line is that of the bytes that are taken off the source, and the offset moves past
them. -/
lemma readLine_ok {s' : InputStream} {text : String} (h : s.readLine = (.ok text, s')) :
    s.source.takeLine.1 = bytesOf text ∧ s'.offset = s.offset + (bytesOf text).length := by
  unfold readLine at h
  cases htext : String.fromUTF8? s.source.takeLine.1.toByteArray with
  | none => simp [htext] at h
  | some text' =>
    have hbytes := bytesOf_of_fromUTF8? htext
    simp only [htext] at h
    split at h
    next hempty =>
      obtain ⟨heq, rfl⟩ := Prod.mk.inj h
      obtain rfl := Except.ok.inj heq
      rw [hbytes, List.isEmpty_iff.1 hempty]
      exact ⟨rfl, rfl⟩
    next =>
      obtain ⟨heq, rfl⟩ := Prod.mk.inj h
      obtain rfl := Except.ok.inj heq
      rw [hbytes]
      exact ⟨rfl, rfl⟩

/-! ## Loops with known lines -/

/-- A text with a line feed behind it is not empty. -/
lemma append_lineFeed_ne_empty (text : String) : text ++ "\n" ≠ "" := by
  intro h
  have := congrArg String.length h
  simp [String.length_append] at this

section Steps

variable {σ : Type} {step : σ → Position → String → Except ReadError (LineStep σ)}
  {state state₁ state₂ : σ} {texts : List String} {text : String}

/-- The step goes from state to state over lines with the given texts, wherever they stand. -/
inductive Steps (step : σ → Position → String → Except ReadError (LineStep σ)) :
    σ → List String → σ → Prop
  | nil (state : σ) : Steps step state [] state
  | cons {state state₁ state₂ : σ} {text : String} {texts : List String}
      (hstep : ∀ pos, step state pos (text ++ "\n") = .ok (.more state₁))
      (hrest : Steps step state₁ texts state₂) : Steps step state (text :: texts) state₂

/-- A loop goes through the states of its steps, and on from the last one. -/
lemma Steps.foldLines_eq (h : Steps step state texts state₁)
    (hfeed : ∀ text ∈ texts, '\n' ∉ text.toList) {more : List UInt8} (last : Position)
    {s : InputStream} (hrest : s.source.rest = bytesOf (unlines texts) ++ more) :
    ∃ last' s', foldLines step state last s = foldLines step state₁ last' s' ∧
      s'.source.rest = more ∧ s'.offset = s.offset + (bytesOf (unlines texts)).length := by
  induction h generalizing last s with
  | nil state => exact ⟨last, s, rfl, hrest, rfl⟩
  | @cons state state' state'' text texts hstep _ ih =>
    rw [List.forall_mem_cons] at hfeed
    have hunlines : bytesOf (unlines (text :: texts)) =
        bytesOf (text ++ "\n") ++ bytesOf (unlines texts) := by
      rw [unlines, List.map_cons, String.join_cons, bytesOf_append]
      rfl
    rw [hunlines, List.append_assoc] at hrest
    obtain ⟨s₁, hread, hrest₁⟩ := readLine_of_rest_eq hfeed.1 hrest
    obtain ⟨last', s', hfold, hrest', hoffset⟩ := ih hfeed.2 s.position hrest₁
    refine ⟨last', s', ?_, hrest', ?_⟩
    · rw [foldLines, hread]
      simp only [dif_neg (append_lineFeed_ne_empty text), hstep, hfold]
    · rw [hoffset, (readLine_ok hread).2, hunlines, List.length_append, Nat.add_assoc]

/-- A loop ends with a step that stops, and leaves what comes after its line. -/
lemma foldLines_of_done (hstep : ∀ pos, step state pos (text ++ "\n") = .ok (.done state₁))
    (hfeed : '\n' ∉ text.toList) {more : List UInt8} (last : Position) {s : InputStream}
    (hrest : s.source.rest = bytesOf (text ++ "\n") ++ more) :
    ∃ last' s', foldLines step state last s = (.ok (state₁, last'), s') ∧
      s'.source.rest = more ∧ s'.offset = s.offset + (bytesOf (text ++ "\n")).length := by
  obtain ⟨s', hread, hrest'⟩ := readLine_of_rest_eq hfeed hrest
  refine ⟨s.position, s', ?_, hrest', (readLine_ok hread).2⟩
  rw [foldLines, hread]
  simp only [dif_neg (append_lineFeed_ne_empty text), hstep]

end Steps

/-! ## Loops with any lines -/

/-- The text is a single line: a line feed can only end it. -/
def IsLine (cs : List Char) : Prop :=
  ∀ l r, cs = l ++ '\n' :: r → r = []

/-- A line without the white space at its end has no line feed. -/
lemma IsLine.not_mem_trimRight {cs : List Char} (h : IsLine cs) : '\n' ∉ trimRight cs := by
  intro hmem
  obtain ⟨l, r, hlr⟩ := List.append_of_mem hmem
  obtain ⟨blanks, hblanks⟩ := List.rdropWhile_prefix isBlank cs
  have htrim : cs.rdropWhile isBlank = l ++ '\n' :: r := hlr
  rw [htrim, List.append_assoc, List.cons_append] at hblanks
  have hnil := List.append_eq_nil_iff.1 (h l (r ++ blanks) hblanks.symm)
  -- the line feed would stand at the end, where it is white space
  rw [hnil.1] at htrim
  have hlast := List.rdropWhile_last_not isBlank cs (by simp [htrim])
  simp only [htrim, List.getLast_append_singleton] at hlast
  exact hlast (by decide)

/-- What is taken as a line has no line feed before its end. -/
lemma eq_nil_of_cutLine {bs l r : List UInt8}
    (h : (ByteSource.cutLine bs).1 = l ++ ByteSource.lineFeed :: r) : r = [] := by
  induction bs generalizing l with
  | nil => simp [ByteSource.cutLine] at h
  | cons b bs ih =>
    rw [ByteSource.cutLine] at h
    split at h
    next hb =>
      cases l with
      | nil => exact (List.cons.inj h).2.symm
      | cons c l => simp at h
    next hb =>
      cases l with
      | nil => exact absurd (List.cons.inj h).1 hb
      | cons c l => exact ih (List.cons.inj h).2

/-- What is read as a line is a line. -/
lemma isLine_of_readLine {s s' : InputStream} {text : String} (h : s.readLine = (.ok text, s')) :
    IsLine text.toList := by
  intro l r hsplit
  have hbytes := (readLine_ok h).1
  have hfeed : String.utf8EncodeChar '\n' = [ByteSource.lineFeed] := by decide
  rw [ByteSource.takeLine_eq_cutLine, bytesOf_eq_flatMap, hsplit, List.flatMap_append,
    List.flatMap_cons, hfeed, List.singleton_append] at hbytes
  have hnil := eq_nil_of_cutLine hbytes
  rw [List.flatMap_eq_nil_iff] at hnil
  rw [List.eq_nil_iff_forall_not_mem]
  intro c hc
  have hlength := congrArg List.length (hnil c hc)
  rw [String.length_utf8EncodeChar, List.length_nil] at hlength
  exact absurd hlength (Nat.ne_of_gt c.utf8Size_pos)

lemma line_pos (s : InputStream) : 1 ≤ s.position.line :=
  Nat.le_add_left ..

/-- What a step leads to: a state with `P` if the loop goes on, a state with `Q` if it stops. -/
def LineStep.LeadsTo {σ : Type} (P Q : σ → Prop) : LineStep σ → Prop
  | .more state => P state
  | .done state => Q state

end InputStream

/-! ## Loops that succeed -/

/-- A text is known by its bytes. -/
lemma bytesOf_injective : Function.Injective bytesOf := by
  intro s t h
  have hs := fromUTF8?_bytesOf s
  rw [h, fromUTF8?_bytesOf t] at hs
  exact (Option.some.inj hs).symm

namespace ByteSource

/-- The lines of a text of bytes, each with the line feed that ends it. -/
def cutLines : List UInt8 → List (List UInt8)
  | [] => []
  | b :: bs =>
    if b = lineFeed then [b] :: cutLines bs
    else
      match cutLines bs with
      | [] => [[b]]
      | line :: lines => (b :: line) :: lines

/-- The lines put together are the bytes that were cut. -/
lemma flatten_cutLines (bs : List UInt8) : (cutLines bs).flatten = bs := by
  induction bs with
  | nil => rfl
  | cons b bs ih =>
    rw [cutLines]
    split
    · rw [List.flatten_cons, ih, List.singleton_append]
    · split
      next hnil =>
        rw [hnil] at ih
        rw [← ih]
        rfl
      next line lines hcons =>
        rw [hcons] at ih
        rw [← ih]
        rfl

/-- The lines are the first one and those of the bytes after it. -/
lemma cutLines_eq_cons {bs : List UInt8} (h : bs ≠ []) :
    cutLines bs = (cutLine bs).1 :: cutLines ((cutLine bs).2.getD []) := by
  induction bs with
  | nil => exact absurd rfl h
  | cons b bs ih =>
    rw [cutLines, cutLine]
    split
    · rfl
    · cases bs with
      | nil => rfl
      | cons b' bs => rw [ih (List.cons_ne_nil _ _)]

/-- There is no line only where there are no bytes. -/
lemma eq_nil_of_cutLine_eq_nil {bs : List UInt8} (h : (cutLine bs).1 = []) : bs = [] := by
  cases bs with
  | nil => rfl
  | cons b bs =>
    rw [cutLine] at h
    split at h <;> cases h

/-- A line that is taken off leaves what comes after it. -/
lemma rest_takeLine (s : ByteSource) : s.takeLine.2.rest = (cutLine s.rest).2.getD [] := by
  have hall := takeLine_append_rest s
  rw [takeLine_eq_cutLine] at hall
  exact List.append_cancel_left (hall.trans (cutLine_append s.rest).symm)

end ByteSource

namespace InputStream

/-- The step goes from state to state over lines with the given texts; the flag tells whether it
stops at the last one. -/
inductive Passes {σ : Type} (step : σ → Position → String → Except ReadError (LineStep σ)) :
    σ → List String → σ → Bool → Prop
  | nil (state : σ) : Passes step state [] state false
  | done {state state₁ : σ} {pos : Position} {text : String}
      (hstep : step state pos text = .ok (.done state₁)) : Passes step state [text] state₁ true
  | more {state state₁ state₂ : σ} {pos : Position} {text : String} {texts : List String}
      {stopped : Bool} (hstep : step state pos text = .ok (.more state₁))
      (hrest : Passes step state₁ texts state₂ stopped) :
      Passes step state (text :: texts) state₂ stopped

/-- A line that is read is the first one of the bytes ahead, and it is empty only at their end. -/
lemma cutLines_of_readLine {s s' : InputStream} {text : String}
    (h : s.readLine = (.ok text, s')) :
    if text = "" then s.source.rest = [] else
      ByteSource.cutLines s.source.rest = bytesOf text :: ByteSource.cutLines s'.source.rest := by
  have hline := (readLine_ok h).1
  rw [ByteSource.takeLine_eq_cutLine] at hline
  have hrest : s'.source.rest = (ByteSource.cutLine s.source.rest).2.getD [] := by
    rw [← ByteSource.rest_takeLine, ← source_readLine, h]
  split
  next hempty =>
    rw [hempty] at hline
    exact ByteSource.eq_nil_of_cutLine_eq_nil hline
  next hne =>
    rw [ByteSource.cutLines_eq_cons, hline, hrest]
    intro hnil
    rw [hnil, ByteSource.cutLine] at hline
    exact hne (bytesOf_injective hline.symm)

/-- A loop that succeeds has gone over the first lines of the stream, or over all of them if no step
has stopped it. -/
lemma passes_of_foldLines {σ : Type}
    {step : σ → Position → String → Except ReadError (LineStep σ)} {state : σ} {last : Position}
    {s s' : InputStream} {r : σ × Position} (h : foldLines step state last s = (.ok r, s')) :
    ∃ texts stopped, Passes step state texts r.1 stopped ∧
      texts.map bytesOf <+: ByteSource.cutLines s.source.rest ∧
      (stopped = false → texts.map bytesOf = ByteSource.cutLines s.source.rest) := by
  -- only the branches that succeed are left; each one cuts off the line that it has read
  fun_induction foldLines step state last s with
  | case1 => cases (Prod.mk.inj h).1
  | case2 state last s s₁ hread =>
    obtain ⟨hr, -⟩ := Prod.mk.inj h
    obtain rfl := Except.ok.inj hr
    have hrest := cutLines_of_readLine hread
    rw [if_pos rfl] at hrest
    rw [hrest]
    exact ⟨[], false, .nil state, List.nil_prefix, fun _ => rfl⟩
  | case3 => cases (Prod.mk.inj h).1
  | case4 state last s text s₁ hread hne state₁ hdone =>
    obtain ⟨hr, -⟩ := Prod.mk.inj h
    obtain rfl := Except.ok.inj hr
    have hlines := cutLines_of_readLine hread
    rw [if_neg hne] at hlines
    rw [hlines]
    exact ⟨[text], true, .done hdone, List.cons_prefix_cons.2 ⟨rfl, List.nil_prefix⟩,
      fun h => by cases h⟩
  | case5 state last s text s₁ hread hne state₁ hmore ih =>
    obtain ⟨texts, stopped, hpasses, hprefix, hall⟩ := ih h
    have hlines := cutLines_of_readLine hread
    rw [if_neg hne] at hlines
    rw [hlines]
    refine ⟨text :: texts, stopped, .more hmore hpasses, ?_, fun hstopped => ?_⟩
    · exact List.cons_prefix_cons.2 ⟨rfl, hprefix⟩
    · rw [List.map_cons, hall hstopped]

/-- The first line of the bytes ahead is read if it is a text, and the other ones stay ahead. -/
lemma readLine_of_cutLines {s : InputStream} {text : String} {lines : List (List UInt8)}
    (h : ByteSource.cutLines s.source.rest = bytesOf text :: lines) :
    text ≠ "" ∧ ∃ s', s.readLine = (.ok text, s') ∧
      ByteSource.cutLines s'.source.rest = lines := by
  have hrest : s.source.rest ≠ [] := by
    intro hnil
    rw [hnil] at h
    cases h
  rw [ByteSource.cutLines_eq_cons hrest] at h
  obtain ⟨hline, hlines⟩ := List.cons.inj h
  have hne : bytesOf text ≠ [] := by
    rw [← hline]
    exact fun hnil => hrest (ByteSource.eq_nil_of_cutLine_eq_nil hnil)
  refine ⟨fun hempty => hne (hempty ▸ rfl), s.readLine.2, Prod.ext ?_ rfl, ?_⟩
  · simp only [readLine, ByteSource.takeLine_eq_cutLine, hline, fromUTF8?_bytesOf]
    split <;> rfl
  · rwa [source_readLine, ByteSource.rest_takeLine]

end InputStream

end LinearInterchange
