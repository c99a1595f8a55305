import LinearInterchange.Proofs.FlatZincReader
import LinearInterchange.Proofs.TextStreams

/-!
# FlatZinc texts

The reader of FlatZinc puts the lines of a stream together again, so what it decodes is a matter of
the whole text.  For the positions of items it keeps the places where lines start.

A line starts at the beginning of a text and behind each line feed that is not at the end, so the
last line that starts no later than a place is the one with as many lines before it as there are
line feeds before the place.
-/

namespace LinearInterchange.FlatZinc

open Text ByteSource

/-! ## Places where lines start -/

/-- The places where lines start that follow one another from a given place on. -/
def startsFrom : ℕ → List (List UInt8) → List ℕ
  | _, [] => []
  | k, l :: ls => k :: startsFrom (k + l.length) ls

/-- No line starts before the first one. -/
lemma takeWhile_startsFrom_of_lt {k n : ℕ} (h : k < n) (ls : List (List UInt8)) :
    (startsFrom n ls).takeWhile (· ≤ k) = [] := by
  cases ls with
  | nil => rfl
  | cons l ls => exact List.takeWhile_cons_of_neg (by simpa using h)

/-- Up to a place of a text, one line more starts than there are line feeds before the place. -/
lemma length_takeWhile_startsFrom {bs : List UInt8} {j : ℕ} (h : j < bs.length) (k : ℕ) :
    ((startsFrom k (cutLines bs)).takeWhile (· ≤ k + j)).length =
      1 + (bs.take j).count lineFeed := by
  -- a line feed adds a line in front; any other character moves the start of the first line back
  induction bs generalizing j k with
  | nil => exact absurd h (Nat.not_lt_zero j)
  | cons b bs ih =>
    rw [cutLines]
    split
    next hb =>
      subst hb
      rw [startsFrom, List.takeWhile_cons_of_pos (by simp), List.length_cons, List.length_singleton]
      cases j with
      | zero =>
        simp only [Nat.add_zero, takeWhile_startsFrom_of_lt (Nat.lt_add_one k)]
        rfl
      | succ j =>
        have hrest := ih (Nat.lt_of_succ_lt_succ h) (k + 1)
        rw [Nat.add_assoc, Nat.add_comm 1 j] at hrest
        rw [hrest, List.take_succ_cons, List.count_cons_self]
        omega
    next hb =>
      have hcount : ∀ i, ((b :: bs).take (i + 1)).count lineFeed = (bs.take i).count lineFeed :=
        fun i => by rw [List.take_succ_cons, List.count_cons_of_ne hb]
      split
      next hnil =>
        have hbs : bs = [] := by
          rw [← flatten_cutLines bs, hnil]
          rfl
        subst hbs
        obtain rfl : j = 0 := Nat.lt_one_iff.1 h
        rw [startsFrom, List.takeWhile_cons_of_pos (by simp)]
        rfl
      next l ls hcons =>
        rw [startsFrom, List.takeWhile_cons_of_pos (by simp), List.length_cons, List.length_cons]
        cases j with
        | zero =>
          rw [takeWhile_startsFrom_of_lt (by omega)]
          rfl
        | succ j =>
          have hrest := ih (Nat.lt_of_succ_lt_succ h) (k + 1)
          rw [hcons, startsFrom, List.takeWhile_cons_of_pos (by simp), List.length_cons,
            Nat.add_assoc, Nat.add_comm 1 j] at hrest
          rw [hcount, ← hrest, Nat.add_assoc k, Nat.add_comm 1]

/-! ## Lines put together -/

/-- The lines of a text, put together. -/
def linesOf (cs : List Char) : Lines :=
  (lines cs).foldl (fun l line => l.add (.ofList line)) {}

/-- Lines put together are the texts of all of them, and they start one behind another. -/
lemma foldl_add (ls : List (List Char)) (l : Lines) :
    (ls.foldl (fun l line => l.add (.ofList line)) l).text = l.text ++ .ofList ls.flatten ∧
      (ls.foldl (fun l line => l.add (.ofList line)) l).starts.reverse =
        l.starts.reverse ++ startsFrom l.text.utf8ByteSize (ls.map utf8) := by
  induction ls generalizing l with
  | nil => simp [startsFrom]
  | cons line ls ih =>
    obtain ⟨htext, hstarts⟩ := ih (l.add (.ofList line))
    have hsize : (l.add (.ofList line)).text.utf8ByteSize =
        l.text.utf8ByteSize + (utf8 line).length := by
      rw [← bytesOf_ofList]
      exact String.utf8ByteSize_append
    rw [List.foldl_cons, htext, hstarts, hsize]
    constructor
    · rw [Lines.add, List.flatten_cons, String.ofList_append, String.append_assoc]
    · rw [Lines.add, List.reverse_cons, List.append_assoc, List.map_cons, startsFrom,
        List.singleton_append]

lemma text_linesOf (cs : List Char) : (linesOf cs).text.toList = cs := by
  rw [linesOf, (foldl_add _ _).1, flatten_lines]
  simp

/-- The table of the lines of a text. -/
lemma table_linesOf (cs : List Char) :
    (linesOf cs).table = if cs = [] then [0] else startsFrom 0 (cutLines (utf8 cs)) := by
  have hstarts := (foldl_add (lines cs) {}).2
  rw [← linesOf, ← cutLines_utf8] at hstarts
  have hreverse : (linesOf cs).starts.reverse = startsFrom 0 (cutLines (utf8 cs)) := hstarts
  rw [Lines.table, hreverse]
  split
  next hempty =>
    -- a text without lines is empty
    rw [List.isEmpty_iff.1 hempty] at hreverse
    have hlines : cutLines (utf8 cs) = [] := by
      cases hcut : cutLines (utf8 cs) with
      | nil => rfl
      | cons l ls => rw [hcut] at hreverse; cases hreverse
    have hcs : utf8 cs = utf8 [] := by
      rw [← flatten_cutLines (utf8 cs), hlines]
      rfl
    rw [if_pos (utf8_injective hcs)]
  next hfull =>
    rw [if_neg]
    rintro rfl
    exact hfull rfl

/-- Every place of a text lies on a line of its table, behind as many lines as there are line feeds.
-/
lemma locate_table {cs : List Char} {j : ℕ} (h : j < (utf8 cs).length) (base : Position) :
    locate (linesOf cs).table base j =
      .ok ⟨base.line + ((utf8 cs).take j).count lineFeed, base.offset + j⟩ := by
  have hne : cs ≠ [] := by
    rintro rfl
    exact absurd h (Nat.not_lt_zero j)
  have hcount := length_takeWhile_startsFrom h 0
  rw [Nat.zero_add] at hcount
  rw [locate, table_linesOf, if_neg hne, hcount, Nat.add_comm 1]

/-- The table of a text begins at its beginning. -/
lemma head?_table (cs : List Char) : (linesOf cs).table.head? = some 0 := by
  rw [table_linesOf]
  split
  · rfl
  next hne =>
    cases hcut : cutLines (utf8 cs) with
    | nil =>
      have hcs : utf8 cs = utf8 [] := by
        rw [← flatten_cutLines (utf8 cs), hcut]
        rfl
      exact absurd (utf8_injective hcs) hne
    | cons l ls => rfl

/-! ## Streams over texts -/

/-- What the reader does with a line, wherever it stands. -/
def gather (l : Lines) (line : List Char) : Except ReadError (InputStream.LineStep Lines) :=
  .ok (.more (l.add (.ofList line)))

/-- What is decoded from a stream over a text is decoded from the text. -/
lemma decode_text (settings : Settings) {cs : List Char} {input : InputStream}
    (h : input.source.rest = utf8 cs) :
    (decode settings input).1 = decodeText settings input.position
      (decode settings input).2.position (linesOf cs).table cs := by
  have hlines : cutLines input.source.rest = (lines cs).map utf8 := by
    rw [h, cutLines_utf8]
  have hadd : ∀ l pos line,
      ((step l pos (.ofList line)).mapError id).map (InputStream.LineStep.map id) = gather l line :=
    fun _ _ _ => rfl
  have hover : ∀ (ls : List (List Char)) (l : Lines), InputStream.overLines gather l ls =
      .ok (ls.foldl (fun l line => l.add (.ofList line)) l) := by
    intro ls
    induction ls with
    | nil => exact fun l => rfl
    | cons line ls ih => exact fun l => ih _
  have hfold := InputStream.foldLines_lines hadd {} input.position hlines
  rw [hover] at hfold
  rw [decode_eq, InputStream.readThrough]
  generalize InputStream.foldLines step {} input.position input = r at hfold ⊢
  obtain ⟨outcome, input'⟩ := r
  cases outcome with
  | error e => cases hfold
  | ok r =>
    have hr : r.1 = linesOf cs := Except.ok.inj hfold
    show decodeText _ _ _ r.1.table r.1.text.toList = _
    rw [hr, text_linesOf]

end LinearInterchange.FlatZinc
