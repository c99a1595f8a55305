import LinearInterchange.Conversion.Outlet
import LinearInterchange.Input.Stream
import LinearInterchange.Proofs.Outcome

/-!
# Streams of lines

The bytes of lines that were written one after another are cut into the same lines again, whatever
the size of the chunks in which they are fetched.  A line feed is a byte of its own in UTF-8 and
part of no other character, so a line is found in the bytes where it is found in the text.  Reading
such a stream by lines is then a loop over the texts of the lines, `foldLines_texts`, and no later
proof has to look at bytes.
-/

namespace LinearInterchange

/-! ## The bytes of a text -/

lemma bytesOf_append (s t : String) : bytesOf (s ++ t) = bytesOf s ++ bytesOf t := by
  rw [bytesOf, String.toUTF8_eq_toByteArray, String.toByteArray_append, ByteArray.data_append,
    Array.toList_append]
  rfl

/-- A text is what its bytes denote. -/
lemma fromUTF8?_bytesOf (s : String) : String.fromUTF8? (bytesOf s).toByteArray = some s := by
  have hbytes : (bytesOf s).toByteArray = s.toByteArray := by
    apply ByteArray.ext
    rw [List.data_toByteArray, bytesOf, Array.toArray_toList]
    rfl
  rw [hbytes, String.fromUTF8?, dif_pos s.isValidUTF8]
  rfl

lemma bytesOf_eq_flatMap (s : String) : bytesOf s = s.toList.flatMap String.utf8EncodeChar := by
  rw [bytesOf, String.toUTF8_eq_toByteArray, ← String.utf8Encode_toList, List.utf8Encode,
    List.data_toByteArray]

/-- A byte of a character is the character itself, or it is not that of an ASCII character. -/
lemma toNat_of_mem_utf8EncodeChar {c : Char} {b : UInt8} (h : b ∈ String.utf8EncodeChar c) :
    b.toNat = c.toNat ∨ 128 ≤ b.toNat := by
  have hval : c.val.toNat = c.toNat := rfl
  simp only [String.utf8EncodeChar, hval] at h
  split at h
  case isTrue hle =>
    rw [List.mem_singleton] at h
    subst h
    rw [UInt8.toNat_ofNat']
    omega
  case isFalse =>
    split at h
    case isTrue =>
      simp only [List.mem_cons, List.not_mem_nil, or_false] at h
      rcases h with rfl | rfl <;> rw [UInt8.toNat_ofNat'] <;> omega
    case isFalse =>
      split at h <;> simp only [List.mem_cons, List.not_mem_nil, or_false] at h
      case isTrue => rcases h with rfl | rfl | rfl <;> rw [UInt8.toNat_ofNat'] <;> omega
      case isFalse => rcases h with rfl | rfl | rfl | rfl <;> rw [UInt8.toNat_ofNat'] <;> omega

/-- A text without line feeds has none among its bytes. -/
lemma lineFeed_not_mem_bytesOf {s : String} (h : '\n' ∉ s.toList) :
    ByteSource.lineFeed ∉ bytesOf s := by
  rw [bytesOf_eq_flatMap]
  intro hmem
  obtain ⟨c, hc, hbyte⟩ := List.mem_flatMap.1 hmem
  have hfeed : ByteSource.lineFeed.toNat = 10 := rfl
  have hnat : c.toNat = 10 := by
    rcases toNat_of_mem_utf8EncodeChar hbyte with heq | hge <;> omega
  have hchar : c = '\n' := by
    rw [← Char.ofNat_toNat c, hnat]
  exact h (hchar ▸ hc)

/-! ## Cutting a line off -/

namespace ByteSource

/-- Bytes are cut after the first line feed. -/
lemma cutLine_append_lineFeed {bs : List UInt8} (h : lineFeed ∉ bs) (more : List UInt8) :
    cutLine (bs ++ lineFeed :: more) = (bs ++ [lineFeed], some more) := by
  induction bs with
  | nil => rw [List.nil_append, cutLine, if_pos rfl, List.nil_append]
  | cons b bs ih =>
    have hb : b ≠ lineFeed := fun heq => h (heq ▸ List.mem_cons_self)
    rw [List.cons_append, cutLine, if_neg hb, ih fun hmem => h (List.mem_cons_of_mem _ hmem)]
    rfl

/-- A line that ends in what is fetched does not depend on what comes after. -/
lemma cutLine_append_of_isSome {bs : List UInt8} (h : (cutLine bs).2.isSome = true)
    (more : List UInt8) : (cutLine (bs ++ more)).1 = (cutLine bs).1 := by
  induction bs with
  | nil => cases h
  | cons b bs ih =>
    rw [cutLine] at h
    rw [List.cons_append, cutLine, cutLine]
    by_cases hb : b = lineFeed
    · rw [if_pos hb, if_pos hb]
    · rw [if_neg hb] at h
      rw [if_neg hb, if_neg hb]
      exact congrArg (b :: ·) (ih h)

/-- A line that does not end in what is fetched goes on with what comes after. -/
lemma cutLine_append_of_eq_none {bs : List UInt8} (h : (cutLine bs).2 = none) (more : List UInt8) :
    (cutLine (bs ++ more)).1 = bs ++ (cutLine more).1 := by
  induction bs with
  | nil => rfl
  | cons b bs ih =>
    rw [cutLine] at h
    rw [List.cons_append, cutLine]
    by_cases hb : b = lineFeed
    · rw [if_pos hb] at h
      cases h
    · rw [if_neg hb] at h
      rw [if_neg hb]
      exact congrArg (b :: ·) (ih h)

/-- The size of the chunks does not matter: the line that is taken is the first one of all bytes
that are to come. -/
lemma takeLine_eq_cutLine (s : ByteSource) : s.takeLine.1 = (cutLine s.rest).1 := by
  fun_induction takeLine s with
  | case1 s s' h => rw [(buffered_fill_eq_nil_iff s).1 h, cutLine]
  | case2 s s' h line hsome =>
    rw [← rest_fill s]
    exact (cutLine_append_of_isSome hsome _).symm
  | case3 s s' h line hnone more s'' heq ih =>
    rw [Option.not_isSome_iff_eq_none] at hnone
    have hline : line = s'.buffered := by
      have hcut := cutLine_append s'.buffered
      rwa [hnone, Option.getD_none, List.append_nil] at hcut
    have hrest : (s'.consume s'.buffered.length).rest = s'.unread := by
      rw [rest_consume (Nat.le_refl _), rest, List.drop_left]
    rw [heq, hrest] at ih
    rw [hline, ← rest_fill s]
    show s'.buffered ++ more = (cutLine (s'.buffered ++ s'.unread)).1
    rw [cutLine_append_of_eq_none hnone, ← ih]

/-- A line is taken off the bytes that begin with it. -/
lemma takeLine_of_rest_eq {s : ByteSource} {bs more : List UInt8} (h : lineFeed ∉ bs)
    (hrest : s.rest = bs ++ lineFeed :: more) :
    s.takeLine.1 = bs ++ [lineFeed] ∧ s.takeLine.2.rest = more := by
  have hline : s.takeLine.1 = bs ++ [lineFeed] := by
    rw [takeLine_eq_cutLine, hrest, cutLine_append_lineFeed h]
  have hall := takeLine_append_rest s
  rw [hline, hrest, List.append_assoc, List.singleton_append] at hall
  exact ⟨hline, List.cons.inj (List.append_cancel_left hall) |>.2⟩

end ByteSource

namespace InputStream

/-! ## Reading lines -/

/-- A line at the head of a stream is read, and the stream goes on after it. -/
lemma readLine_of_rest_eq {s : InputStream} {text : String} {more : List UInt8}
    (hfeed : '\n' ∉ text.toList) (hrest : s.source.rest = bytesOf (text ++ "\n") ++ more) :
    ∃ s', s.readLine = (.ok (text ++ "\n"), s') ∧ s'.source.rest = more := by
  have hbytes : bytesOf (text ++ "\n") = bytesOf text ++ [ByteSource.lineFeed] := by
    rw [bytesOf_append]
    rfl
  rw [hbytes, List.append_assoc, List.singleton_append] at hrest
  obtain ⟨hline, hmore⟩ :=
    ByteSource.takeLine_of_rest_eq (lineFeed_not_mem_bytesOf hfeed) hrest
  rw [← hbytes] at hline
  have hne : (bytesOf (text ++ "\n")).isEmpty = false := by
    rw [hbytes, List.isEmpty_eq_false_iff]
    exact List.append_ne_nil_of_right_ne_nil _ (List.cons_ne_nil _ _)
  refine ⟨⟨s.source.takeLine.2, s.offset + s.source.takeLine.1.length, s.line + 1⟩, ?_, hmore⟩
  simp only [readLine, hline, fromUTF8?_bytesOf, hne, Bool.false_eq_true, if_false]

/-- At the end of a stream the empty text is read. -/
lemma readLine_of_rest_eq_nil {s : InputStream} (hrest : s.source.rest = []) :
    ∃ s', s.readLine = (.ok "", s') := by
  have hline : s.source.takeLine.1 = [] := by
    rw [ByteSource.takeLine_eq_cutLine, hrest, ByteSource.cutLine]
  have hempty : String.fromUTF8? ([] : List UInt8).toByteArray = some "" := fromUTF8?_bytesOf ""
  refine ⟨{ s with source := s.source.takeLine.2 }, ?_⟩
  simp only [readLine, hline, hempty, List.isEmpty_nil, if_true]

/-- The text of lines one after another. -/
def unlines (texts : List String) : String :=
  String.join (texts.map (· ++ "\n"))

/-- Reading a stream of lines is a loop over their texts. -/
lemma foldLines_texts {σ ε : Type}
    (step : σ → Position → String → Except ReadError (LineStep σ))
    {f : σ → String → Except ε σ}
    (hstep : ∀ state pos text state', f state text = .ok state' →
      step state pos (text ++ "\n") = .ok (.more state'))
    {texts : List String} (hfeed : ∀ text ∈ texts, '\n' ∉ text.toList) {state final : σ}
    (hrun : texts.foldlM f state = .ok final) (last : Position) {s : InputStream}
    (hrest : s.source.rest = bytesOf (unlines texts)) :
    ∃ last' s', foldLines step state last s = (.ok (final, last'), s') := by
  induction texts generalizing state last s with
  | nil =>
    obtain ⟨s', hread⟩ := readLine_of_rest_eq_nil hrest
    rw [List.foldlM_nil] at hrun
    cases hrun
    refine ⟨last, s', ?_⟩
    rw [foldLines, hread]
    rfl
  | cons text texts ih =>
    rw [unlines, List.map_cons, String.join_cons, bytesOf_append] at hrest
    rw [List.forall_mem_cons] at hfeed
    obtain ⟨s', hread, hmore⟩ := readLine_of_rest_eq hfeed.1 hrest
    rw [List.foldlM_cons] at hrun
    obtain ⟨state', hf, hrun'⟩ := bind_eq_ok.1 hrun
    obtain ⟨last', s'', hfold⟩ := ih hfeed.2 hrun' s.position hmore
    -- a line is never empty, since its line feed belongs to it
    have hne : text ++ "\n" ≠ "" := by
      intro h
      have := congrArg String.length h
      simp [String.length_append] at this
    refine ⟨last', s'', ?_⟩
    rw [foldLines, hread]
    simp only [dif_neg hne, hstep _ _ _ _ hf, hfold]

end InputStream

end LinearInterchange
