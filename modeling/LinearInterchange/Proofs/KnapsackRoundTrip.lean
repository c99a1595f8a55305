import LinearInterchange.Conversion.Reader
import LinearInterchange.Proofs.KnapsackReader

/-!
# Knapsack streams round-trip

Entries of a knapsack stream that are written one after another are read back one after another.
The reader tells the lines of an entry apart by trying their forms in turn, and it finds the end of
an entry by its separator; what it skips behind the separator is the empty line there and nothing of
the next entry, because a name does not begin with white space.
-/

namespace LinearInterchange.Knapsack

open Text Parser

variable {k : Knapsack}

/-! ## The lines of an entry -/

/-- The line of an item with its number. -/
def itemText (x : KnapsackItem × ℕ) : String :=
  toString x.2 ++ "," ++ toString x.1.profit ++ "," ++ toString x.1.weight ++ ",0"

/-- The lines of an entry in front of its separator. -/
def entryTexts (k : Knapsack) : List String :=
  k.name :: ("n " ++ toString k.items.length) :: ("c " ++ toString k.capacity) ::
    (k.items.zipIdx 1).map itemText

/-- An entry is its lines, the separator and an empty line. -/
lemma render_eq (k : Knapsack) :
    k.render = InputStream.unlines (k.entryTexts) ++ (separator ++ "\n") ++ "\n" := by
  have hitems : ∀ f : KnapsackItem × ℕ → String, (∀ x, f x = itemText x ++ "\n") →
      (k.items.zipIdx 1).map f = (k.items.zipIdx 1).map (fun x => itemText x ++ "\n") :=
    fun f hf => List.map_congr_left fun x _ => hf x
  rw [render, hitems, InputStream.unlines, entryTexts, List.map_cons, List.map_cons, List.map_cons,
    List.map_map, String.join_cons, String.join_cons, String.join_cons]
  · simp only [Function.comp_def, String.append_assoc]
    rfl
  · intro x
    simp only [itemText, String.append_assoc]
    rfl

/-! ## Reading the lines of an entry -/

section Lines

variable {α : Type} {p : Parser α} {a : α} {cs : List Char}

/-- A line that begins and ends without white space is what is left when its end is trimmed. -/
lemma trim_append_lineFeed (hne : cs ≠ []) (hfirst : Stops isBlank cs)
    (hlast : Stops isBlank cs.reverse) : trim (cs ++ ['\n']) = cs := by
  have hleft : trimLeft (cs ++ ['\n']) = cs ++ ['\n'] := by
    cases cs with
    | nil => exact absurd rfl hne
    | cons c cs => exact List.dropWhile_cons_of_neg (by simp [hfirst c rfl])
  rw [trim, hleft]
  exact trimRight_append (List.forall_mem_singleton.2 rfl) hlast

lemma trim_append_lineFeed_of_isWord (h : IsWord cs) : trim (cs ++ ['\n']) = cs :=
  trim_append_lineFeed h.ne_nil (fun c hc => h.solid c (List.mem_of_mem_head? hc))
    h.solid.stops_reverse

/-- No blanks are passed over where there are none. -/
lemma spaces_of_stops (h : Stops isSpace cs) : spaces cs = some ((), cs) := by
  refine map_of_eq_some (a := []) ?_
  have htake := takeWhile_append (w := []) (List.forall_mem_nil _) h
  have hdrop := dropWhile_append (w := []) (List.forall_mem_nil _) h
  rw [List.nil_append] at htake hdrop
  rw [run, htake, hdrop]

/-- A header line is read as it was written. -/
lemma headerLine_append {key : Char} (hkey : isSpace key = false) (hstops : Stops isSpace cs)
    (h : p cs = some (a, [])) : headerLine key p (key :: ' ' :: cs) = some (a, []) := by
  rw [headerLine, bind_of_eq_some (spaces_of_stops (stops_cons hkey)),
    bind_of_eq_some (char_cons _ _), bind_of_eq_some (spaces1_blank hstops), bind_of_eq_some h,
    bind_of_eq_some (spaces_of_stops (stops_nil _))]
  rfl

/-- The line with the number of items is read as it was written. -/
lemma headerLine_count (n : UInt32) :
    (headerLine 'n' index).parseWhole? ('n' :: ' ' :: (toString n).toList) = some n := by
  have hindex := index_append n (stops_nil Char.isDigit)
  rw [List.append_nil] at hindex
  have hstops : Stops isSpace (toString n).toList := by
    have h : Stops isSpace (Nat.toDigits 10 n.toNat ++ []) :=
      stops_digits fun _ => Exchange.Line.isSpace_of_isDigit
    rwa [List.append_nil, ← toList_toString_index] at h
  exact parseWhole?_eq_some (headerLine_append (by decide) hstops hindex)

/-- The line with the capacity is read as it was written. -/
lemma headerLine_capacity (w : Int64) :
    (headerLine 'c' word).parseWhole? ('c' :: ' ' :: (toString w).toList) = some w := by
  have hword := word_append w (stops_nil Char.isDigit)
  rw [List.append_nil] at hword
  have hstops : Stops isSpace (toString w).toList := by
    have h : Stops isSpace ((toString w.toInt).toList ++ []) :=
      stops_toString_int (fun _ => Exchange.Line.isSpace_of_isDigit) (by decide)
    rwa [List.append_nil] at h
  exact parseWhole?_eq_some (headerLine_append (by decide) hstops hword)

lemma itemLine_of_stops (h : Stops Char.isDigit cs) : itemLine.parseWhole? cs = none := by
  have hindex : index cs = none := bind_of_eq_none (run1_of_stops h)
  have hnone : itemLine cs = none := bind_of_eq_none hindex
  have hparse : itemLine.parse cs = none := hnone
  rw [parseWhole?, hparse]

lemma toList_itemText (x : KnapsackItem × ℕ) :
    (itemText x).toList = Nat.toDigits 10 x.2 ++ ',' :: ((toString x.1.profit).toList ++
      ',' :: ((toString x.1.weight).toList ++ [',', '0'])) := by
  simp only [itemText, String.toList_append, List.append_assoc, toList_toString_nat]
  rfl

/-- The line of an item is read as it was written. -/
lemma itemLine_itemText {x : KnapsackItem × ℕ} {n : UInt32} (hn : n.toNat = x.2) :
    itemLine.parseWhole? (itemText x).toList = some (n, x.1) := by
  have hcomma : ∀ cs, Stops Char.isDigit (',' :: cs) := fun cs => stops_cons (by decide)
  have hsolution : (char ',' >>= fun _ => index) [',', '0'] = some (0, []) := by
    rw [bind_of_eq_some (char_cons _ _)]
    exact index_append 0 (stops_nil _)
  rw [toList_itemText, ← hn, ← toList_toString_index]
  refine parseWhole?_eq_some ?_
  rw [itemLine, bind_of_eq_some (index_append n (hcomma _)), bind_of_eq_some (char_cons _ _),
    bind_of_eq_some (word_append x.1.profit (hcomma _)), bind_of_eq_some (char_cons _ _),
    bind_of_eq_some (word_append x.1.weight (hcomma _)),
    bind_of_eq_some (optional?_of_eq_some hsolution)]
  rfl

/-- The line of an item is a word. -/
lemma isWord_itemText (x : KnapsackItem × ℕ) : IsWord (itemText x).toList := by
  rw [toList_itemText]
  refine ⟨List.append_ne_nil_of_left_ne_nil Nat.toDigits_ne_nil _, fun c hc => ?_⟩
  simp only [List.mem_append, List.mem_cons, List.not_mem_nil, or_false] at hc
  rcases hc with hc | rfl | hc | rfl | hc | rfl | rfl
  · exact isBlank_of_isDigit (isDigit_of_mem hc)
  · decide
  · exact Exchange.Line.isSolid_word _ c hc
  · decide
  · exact Exchange.Line.isSolid_word _ c hc
  · decide
  · decide

end Lines

/-! ## Adding the lines of an entry -/

section Entry

variable {name text : String} {count : UInt32} {capacity : Option Int64}
  {items : List KnapsackItem}

/-- The first line names the entry. -/
lemma addText_name (h : IsEntryName name) :
    Progress.addText (name ++ "\n") .start = .ok (.more (.named name)) := by
  have htrim : trim (name ++ "\n").toList = name.toList := by
    rw [String.toList_append]
    exact trim_append_lineFeed_of_isWord h.word
  have hread : readName name.toList = .ok name := readName_eq_ok_iff.2 ⟨h, rfl⟩
  rw [Progress.addText, htrim, hread]
  rfl

/-- The second line tells the number of items. -/
lemma addText_count {n : ℕ} (h : count.toNat = n) :
    Progress.addText (("n " ++ toString n) ++ "\n") (.named name) =
      .ok (.more (.body name count none [])) := by
  have hline : trimRight (("n " ++ toString n) ++ "\n").toList =
      'n' :: ' ' :: (toString count).toList := by
    have htext : (("n " ++ toString n) ++ "\n").toList =
        (['n', ' '] ++ (toString count).toList) ++ ['\n'] := by
      rw [toList_toString_index, h, ← toList_toString_nat, String.toList_append,
        String.toList_append]
      rfl
    rw [htext]
    exact trimRight_append (List.forall_mem_singleton.2 rfl)
      (Exchange.Line.stops_reverse_append (Exchange.Line.index_ne_nil _)
        (Exchange.Line.isSolid_index _).stops_reverse)
  rw [Progress.addText, hline, headerLine_count]

/-- A line below the number of items is read as part of the body, unless it is the separator. -/
lemma addText_body {cs : List Char} {capacity' : Option Int64} {items' : List KnapsackItem}
    (htrim : trim text.toList = cs) (hne : cs ≠ []) (hseparator : cs ≠ separator.toList)
    (hread : readBody count capacity items cs = .ok (capacity', items')) :
    Progress.addText text (.body name count capacity items) =
      .ok (.more (.body name count capacity' items')) := by
  have hempty : ¬cs.isEmpty = true := by rwa [List.isEmpty_iff]
  simp only [Progress.addText, htrim, if_neg hseparator, if_neg hempty, hread]
  rfl

lemma ne_separator {c : Char} {cs : List Char} (h : c ≠ '-') : c :: cs ≠ separator.toList := by
  intro heq
  exact h (List.cons.inj heq).1

/-- The third line tells the capacity. -/
lemma addText_capacity (w : Int64) :
    Progress.addText (("c " ++ toString w) ++ "\n") (.body name count none []) =
      .ok (.more (.body name count (some w) [])) := by
  have htrim : trim (("c " ++ toString w) ++ "\n").toList = 'c' :: ' ' :: (toString w).toList := by
    have htext : (("c " ++ toString w) ++ "\n").toList =
        (['c', ' '] ++ (toString w).toList) ++ ['\n'] := by
      rw [String.toList_append, String.toList_append]
      rfl
    have hne : (toString w).toList ≠ [] := by
      show (toString w.toInt).toList ≠ []
      rw [toList_toString_int]
      exact List.append_ne_nil_of_right_ne_nil _ Nat.toDigits_ne_nil
    rw [htext]
    exact trim_append_lineFeed (List.cons_ne_nil _ _) (stops_cons (by decide))
      (Exchange.Line.stops_reverse_append hne (Exchange.Line.isSolid_word _).stops_reverse)
  refine addText_body htrim (List.cons_ne_nil _ _) (ne_separator (by decide)) ?_
  rw [readBody, itemLine_of_stops (stops_cons (by decide)), headerLine_capacity]
  rfl

/-- The lines after that hold the items in order. -/
lemma addText_item {w : Int64} {item : KnapsackItem} (h : items.length < count.toNat) :
    Progress.addText (itemText (item, items.length + 1) ++ "\n") (.body name count (some w) items) =
      .ok (.more (.body name count (some w) (items ++ [item]))) := by
  have hword := isWord_itemText (item, items.length + 1)
  have htrim : trim (itemText (item, items.length + 1) ++ "\n").toList =
      (itemText (item, items.length + 1)).toList := by
    rw [String.toList_append]
    exact trim_append_lineFeed_of_isWord hword
  have hn : (UInt32.ofNat (items.length + 1)).toNat = items.length + 1 := by
    have hlt := count.toNat_lt_size
    exact UInt32.toNat_ofNat_of_lt' (by omega)
  have hseparator : (itemText (item, items.length + 1)).toList ≠ separator.toList := by
    rw [toList_itemText]
    obtain ⟨c, cs, hdigits, hc⟩ := exists_toDigits_eq_cons (items.length + 1)
    rw [hdigits]
    exact ne_separator (ne_of_isDigit hc (by decide))
  refine addText_body htrim hword.ne_nil hseparator ?_
  have hcapacity : ¬(some w : Option Int64).isNone = true := Bool.false_ne_true
  rw [readBody, itemLine_itemText hn]
  simp only [addItem, if_neg hcapacity, hn, ne_eq, not_true_eq_false, if_false,
    if_neg (Nat.ne_of_lt h)]
  rfl

/-- The separator ends the entry. -/
lemma addText_separator :
    Progress.addText (separator ++ "\n") (.body name count capacity items) =
      .ok (.done (.body name count capacity items)) := by
  have htrim : trim (separator ++ "\n").toList = separator.toList := by decide
  simp only [Progress.addText, htrim, if_true]
  rfl

end Entry

/-! ## Reading an entry -/

/-- A line that is added without a fault is added at any position. -/
lemma addLine_of_ok {s : Progress} {text : String} {next : InputStream.LineStep Progress}
    (h : s.addText text = .ok next) (pos : Position) : s.addLine pos text = .ok next := by
  rw [Progress.addLine, h]
  rfl

/-- The lines of items add the items. -/
lemma steps_items {name : String} {count : UInt32} {w : Int64} (items more : List KnapsackItem)
    (h : items.length + more.length ≤ count.toNat) :
    InputStream.Steps Progress.addLine (.body name count (some w) items)
      ((more.zipIdx (items.length + 1)).map itemText)
      (.body name count (some w) (items ++ more)) := by
  induction more generalizing items with
  | nil =>
    rw [List.append_nil]
    exact .nil _
  | cons item more ih =>
    rw [List.length_cons] at h
    rw [List.zipIdx_cons, List.map_cons, List.append_cons]
    refine .cons (addLine_of_ok (addText_item (by omega))) ?_
    have hlength : (items ++ [item]).length = items.length + 1 := List.length_append
    have hrest := ih (items ++ [item]) (by omega)
    rwa [hlength] at hrest

/-- The lines of an entry in front of its separator tell everything about the knapsack. -/
lemma steps_entry (hname : IsEntryName k.name) {count : UInt32}
    (hcount : count.toNat = k.items.length) :
    InputStream.Steps Progress.addLine .start k.entryTexts
      (.body k.name count (some k.capacity) k.items) := by
  refine .cons (addLine_of_ok (addText_name hname)) ?_
  refine .cons (addLine_of_ok (addText_count hcount)) ?_
  refine .cons (addLine_of_ok (addText_capacity k.capacity)) ?_
  exact steps_items [] k.items (by simp [hcount])

/-- No line of an entry holds a line feed. -/
lemma no_feed_entryTexts (hname : IsEntryName k.name) :
    ∀ text ∈ k.entryTexts, '\n' ∉ text.toList := by
  have hheader : ∀ (key : Char) {cs : List Char}, key ≠ '\n' → Exchange.IsSolid cs →
      '\n' ∉ key :: ' ' :: cs := by
    intro key cs hkey hsolid hmem
    rcases List.mem_cons.1 hmem with h | hmem
    · exact hkey h.symm
    · rcases List.mem_cons.1 hmem with h | hmem
      · cases h
      · exact hsolid.no_feed hmem
  intro text htext
  simp only [entryTexts, List.mem_cons, List.mem_map] at htext
  rcases htext with rfl | rfl | rfl | ⟨x, -, rfl⟩
  · exact hname.word.solid.no_feed
  · have hsolid : Exchange.IsSolid (toString k.items.length).toList := by
      intro c hc
      rw [toList_toString_nat] at hc
      exact isBlank_of_isDigit (isDigit_of_mem hc)
    rw [String.toList_append]
    exact hheader 'n' (by decide) hsolid
  · rw [String.toList_append]
    exact hheader 'c' (by decide) (Exchange.Line.isSolid_word _)
  · exact (isWord_itemText x).solid.no_feed

/-- An entry is read as the knapsack that it was made of, up to and including its separator. -/
lemma decodeEntry_render (hname : IsEntryName k.name) (hlength : k.items.length < UInt32.size)
    {more : List UInt8} {input : InputStream}
    (hrest : input.source.rest =
      bytesOf (InputStream.unlines k.entryTexts ++ (separator ++ "\n")) ++ more) :
    ∃ input', decodeEntry input = (.ok k, input') ∧ input'.source.rest = more ∧
      input'.offset = input.offset +
        (bytesOf (InputStream.unlines k.entryTexts ++ (separator ++ "\n"))).length := by
  have hcount : (UInt32.ofNat k.items.length).toNat = k.items.length :=
    UInt32.toNat_ofNat_of_lt' hlength
  rw [bytesOf_append, List.append_assoc] at hrest
  obtain ⟨last, input₁, hfold, hrest₁, hoffset₁⟩ :=
    (steps_entry hname hcount).foldLines_eq (no_feed_entryTexts hname) input.position hrest
  obtain ⟨last', input', hdone, hrest', hoffset'⟩ :=
    InputStream.foldLines_of_done (addLine_of_ok addText_separator) (by decide) last hrest₁
  refine ⟨input', ?_, hrest', ?_⟩
  · rw [decodeEntry, hfold, hdone]
    simp only [Progress.finish, hcount, ne_eq, not_true_eq_false, if_false]
    rfl
  · rw [hoffset', hoffset₁, Nat.add_assoc, ← List.length_append, ← bytesOf_append]

/-- An entry begins with a byte that is not skipped. -/
lemma exists_bytesOf_render (hname : IsEntryName k.name) :
    ∃ b bs, bytesOf k.render = b :: bs ∧ ByteSource.isSkipped b = false := by
  obtain ⟨c, cs, hcs⟩ := List.exists_cons_of_ne_nil hname.word.ne_nil
  have hc : isBlank c = false := hname.word.solid c (hcs ▸ List.mem_cons_self)
  obtain ⟨b, bs, hbs⟩ : ∃ b bs, String.utf8EncodeChar c = b :: bs := by
    refine List.exists_cons_of_ne_nil fun hnil => ?_
    have hlength := congrArg List.length hnil
    rw [String.length_utf8EncodeChar, List.length_nil] at hlength
    exact absurd hlength (Nat.ne_of_gt c.utf8Size_pos)
  have hskipped : ByteSource.isSkipped b = false :=
    ByteSource.isSkipped_of_mem_utf8EncodeChar hc (hbs ▸ List.mem_cons_self)
  rw [render_eq, InputStream.unlines, entryTexts, List.map_cons, String.join_cons, bytesOf_append,
    bytesOf_append, bytesOf_append, bytesOf_append, bytesOf_eq_flatMap k.name, hcs,
    List.flatMap_cons, hbs]
  exact ⟨b, _, rfl, hskipped⟩

/-- The next entry of a stream is read as the knapsack that it was made of, up to the entry after
it. -/
lemma decodeNext_render (hname : IsEntryName k.name) (hlength : k.items.length < UInt32.size)
    {more : List UInt8} (hmore : ∀ b ∈ more.head?, ByteSource.isSkipped b = false)
    {input : InputStream} (hrest : input.source.rest = bytesOf k.render ++ more) :
    ∃ c input', decodeNext input = (.ok (some k, c), input') ∧ input'.source.rest = more ∧
      input'.offset = input.offset + (bytesOf k.render).length ∧
      c.offset = input'.offset ∧ c.atEnd = more.isEmpty := by
  have hsplit : bytesOf k.render =
      bytesOf (InputStream.unlines k.entryTexts ++ (separator ++ "\n")) ++ bytesOf "\n" := by
    rw [render_eq, bytesOf_append]
  obtain ⟨b, bs, hbytes, hskipped⟩ := exists_bytesOf_render hname
  have hfirst : ∀ b' ∈ (bytesOf k.render ++ more).head?, ByteSource.isSkipped b' = false := by
    rw [hbytes]
    rintro b' ⟨⟩
    exact hskipped
  have hsome : (bytesOf k.render ++ more).isEmpty = false := by
    rw [hbytes]
    rfl
  -- nothing is skipped before the entry, and behind it just the blank line
  obtain ⟨input₀, hskip₀, hrest₀, hoffset₀⟩ :=
    InputStream.skipWhitespace_of_rest_eq [] _ (List.forall_mem_nil _) hfirst hrest
  rw [hsplit, List.append_assoc] at hrest₀
  obtain ⟨input₁, hentry, hrest₁, hoffset₁⟩ := decodeEntry_render hname hlength hrest₀
  have hfeed : (bytesOf "\n").all ByteSource.isSkipped = true := by decide
  obtain ⟨input₂, hskip₂, hrest₂, hoffset₂⟩ :=
    InputStream.skipWhitespace_of_rest_eq (bytesOf "\n") _ (List.all_eq_true.1 hfeed) hmore hrest₁
  refine ⟨input₂.cursor more.isEmpty, input₂, ?_, hrest₂, ?_, rfl, rfl⟩
  · rw [decodeNext, hskip₀, hsome]
    simp only [hentry, hskip₂]
  · rw [hoffset₂, hoffset₁, hoffset₀, hsplit, List.length_append, List.length_nil]
    omega

end LinearInterchange.Knapsack

namespace LinearInterchange

/-- A reader decodes a stream completely: the instances that it gets one after another, each with
the cursor that the reader has after it, until there is none. -/
inductive Reader.Reads : Reader → InputStream → List (Instance × Cursor) → Prop
  | nil {r r' : Reader} {input input' : InputStream} (h : r.next input = (.ok none, r', input')) :
    Reads r input []
  | cons {r r₁ : Reader} {input input₁ : InputStream} {inst : Instance}
      {reads : List (Instance × Cursor)} (h : r.next input = (.ok (some inst), r₁, input₁))
      (hrest : Reads r₁ input₁ reads) : Reads r input ((inst, r₁.cursor) :: reads)

namespace Knapsack

/-! ## Writing and reading -/

/-- A knapsack can be written as an entry and read again: its name can be told from the rest of the
entry, and there are ids for its items. -/
structure Storable (k : Knapsack) : Prop where
  name : IsEntryName k.name
  length_le : k.items.length ≤ Var.maxId.toNat

/-- The text of knapsacks one after another. -/
def renderAll (ks : List Knapsack) : String :=
  String.join (ks.map render)

/-- The text of knapsacks is the entry of the first one and the text of the others. -/
lemma bytesOf_renderAll_cons (k : Knapsack) (ks : List Knapsack) :
    bytesOf (renderAll (k :: ks)) = bytesOf k.render ++ bytesOf (renderAll ks) := by
  rw [renderAll, List.map_cons, String.join_cons, bytesOf_append]
  rfl

/-- The bytes of knapsacks do not begin with one that is skipped. -/
lemma not_isSkipped_renderAll {ks : List Knapsack} (h : ∀ k ∈ ks, k.Storable) :
    ∀ b ∈ (bytesOf (renderAll ks)).head?, ByteSource.isSkipped b = false := by
  cases ks with
  | nil => rintro b ⟨⟩
  | cons k ks =>
    obtain ⟨b, bs, hbytes, hskipped⟩ := exists_bytesOf_render (h k List.mem_cons_self).name
    rw [bytesOf_renderAll_cons, hbytes]
    rintro b' ⟨⟩
    exact hskipped

/-- The text of knapsacks is empty only if there are none. -/
lemma isEmpty_renderAll {ks : List Knapsack} (h : ∀ k ∈ ks, k.Storable) :
    (bytesOf (renderAll ks)).isEmpty = ks.isEmpty := by
  cases ks with
  | nil => rfl
  | cons k ks =>
    obtain ⟨b, bs, hbytes, -⟩ := exists_bytesOf_render (h k List.mem_cons_self).name
    rw [bytesOf_renderAll_cons, hbytes]
    rfl

/-- A stream of knapsacks that were written is decoded completely, from wherever the reader
stands. -/
lemma reads_renderAll {ks : List Knapsack} (h : ∀ k ∈ ks, k.Storable) (cursor : Cursor)
    (hend : cursor.atEnd = true → ks = []) (input : InputStream)
    (hrest : input.source.rest = bytesOf (renderAll ks)) :
    ∃ reads, Reader.Reads ⟨.knapsack, cursor⟩ input reads ∧
      ks.mapM toInstance = .ok (reads.map Prod.fst) ∧
      ∀ i x, reads[i]? = some x →
        x.2.offset = input.offset + (bytesOf (renderAll (ks.take (i + 1)))).length ∧
          (x.2.atEnd = true ↔ i + 1 = ks.length) := by
  induction ks generalizing cursor input with
  | nil =>
    refine ⟨[], ?_, rfl, fun i x hx => by simp at hx⟩
    by_cases hcursor : cursor.atEnd = true
    · exact .nil (if_pos hcursor)
    · obtain ⟨input', hskip, -, -⟩ := InputStream.skipWhitespace_of_rest_eq [] []
        (List.forall_mem_nil _) (by rintro b ⟨⟩) hrest
      refine @Reader.Reads.nil _ ⟨.knapsack, input'.cursor true⟩ _ input' ?_
      rw [Reader.next, if_neg hcursor]
      simp only [InputFormat.decode, decodeNext, hskip, List.isEmpty_nil]
  | cons k ks ih =>
    rw [List.forall_mem_cons] at h
    have hcursor : ¬cursor.atEnd = true := fun hatEnd => List.cons_ne_nil k ks (hend hatEnd)
    have hsize : k.items.length < UInt32.size := by
      have hmax : Var.maxId.toNat = 4294967294 := rfl
      have hle := h.1.length_le
      have hval : UInt32.size = 4294967296 := rfl
      omega
    rw [bytesOf_renderAll_cons] at hrest
    obtain ⟨c, input₁, hnext, hrest₁, hoffset₁, hc, hatEnd⟩ :=
      decodeNext_render h.1.name hsize (not_isSkipped_renderAll h.2) hrest
    rw [isEmpty_renderAll h.2] at hatEnd
    obtain ⟨inst, hinst⟩ := exists_toInstance_iff.2 h.1.length_le
    -- the cursor behind the first entry is where the reader goes on
    obtain ⟨reads, hreads, hinsts, hplaces⟩ :=
      ih h.2 c (fun hc => List.isEmpty_iff.1 (hatEnd ▸ hc)) input₁ hrest₁
    refine ⟨(inst, c) :: reads, ?_, ?_, ?_⟩
    · refine @Reader.Reads.cons _ ⟨.knapsack, c⟩ _ input₁ _ _ ?_ hreads
      rw [Reader.next, if_neg hcursor]
      simp only [InputFormat.decode, hnext, hinst]
      rfl
    · rw [List.mapM_cons, hinst, hinsts]
      rfl
    · intro i x hx
      cases i with
      | zero =>
        obtain rfl := Option.some.inj hx
        refine ⟨?_, ?_⟩
        · rw [hc, hoffset₁, List.take_succ_cons, bytesOf_renderAll_cons, List.take_zero,
            List.length_append]
          rfl
        · rw [hatEnd, List.isEmpty_iff, List.length_cons, ← List.length_eq_zero_iff]
          omega
      | succ i =>
        obtain ⟨hoffset, hlast⟩ := hplaces i x hx
        refine ⟨?_, ?_⟩
        · rw [hoffset, hoffset₁, List.take_succ_cons, bytesOf_renderAll_cons, List.length_append,
            Nat.add_assoc]
        · rw [hlast, List.length_cons]
          omega

/-- A decoded instance is that of a knapsack that can be written. -/
lemma exists_knapsack_of_next {r r₁ : Reader} {input input₁ : InputStream} {inst : Instance}
    (hformat : r.format = .knapsack) (h : r.next input = (.ok (some inst), r₁, input₁)) :
    ∃ k : Knapsack, k.Storable ∧ k.toInstance = .ok inst := by
  obtain ⟨-, -, hdecode⟩ := Reader.next_ok h
  rw [hformat] at hdecode
  obtain ⟨k, hnext, hinst⟩ := InputFormat.decode_knapsack_ok hdecode
  have hname := (reading_decodeNext input).settles.of_ok (congrArg Prod.fst hnext) k rfl
  exact ⟨k, ⟨hname, exists_toInstance_iff.1 ⟨inst, hinst⟩⟩, hinst⟩

/-- The instances of a stream that is decoded completely are those of knapsacks that can be
written. -/
lemma exists_knapsacks_of_reads {r : Reader} {input : InputStream}
    {reads : List (Instance × Cursor)} (hformat : r.format = .knapsack)
    (h : Reader.Reads r input reads) :
    ∃ ks : List Knapsack, (∀ k ∈ ks, k.Storable) ∧
      ks.mapM toInstance = .ok (reads.map Prod.fst) := by
  induction h with
  | nil => exact ⟨[], List.forall_mem_nil _, rfl⟩
  | @cons r r₁ input input₁ inst reads hnext _ ih =>
    obtain ⟨k, hk, hinst⟩ := exists_knapsack_of_next hformat hnext
    obtain ⟨ks, hks, hinsts⟩ := ih ((Reader.format_of_next hnext).trans hformat)
    refine ⟨k :: ks, List.forall_mem_cons.2 ⟨hk, hks⟩, ?_⟩
    rw [List.mapM_cons, hinst, hinsts]
    rfl

/-- Knapsacks with the same instances have the same names, so either all of them can be written or
none. -/
lemma storable_of_instances {ks ks' : List Knapsack} {insts : List Instance}
    (h : ks.mapM toInstance = .ok insts) (h' : ks'.mapM toInstance = .ok insts)
    (hks : ∀ k ∈ ks, k.Storable) : ∀ k ∈ ks', k.Storable := by
  rw [mapM_eq_ok] at h h'
  induction h generalizing ks' with
  | nil =>
    cases h'
    exact List.forall_mem_nil _
  | cons hinst _ ih =>
    cases h' with
    | cons hinst' hrest' =>
      rw [List.forall_mem_cons] at hks ⊢
      refine ⟨⟨?_, exists_toInstance_iff.1 ⟨_, hinst'⟩⟩, ih hrest' hks.2⟩
      have hname := name_of_toInstance hinst
      rw [name_of_toInstance hinst'] at hname
      exact Option.some.inj hname ▸ hks.1.name

/-- **Knapsack streams round-trip.**  Knapsacks that are written one after another are decoded in
order and nothing after them; after each of them the reader stands where the next one begins, and it
knows of the end exactly after the last one.  Conversely, the instances of any stream that is
decoded completely are those of knapsacks, and writing these and decoding the text gives the same
instances. -/
theorem reads_render :
    (∀ ks : List Knapsack,
      (∀ k ∈ ks, IsEntryName k.name ∧ k.items.length < Var.maxId.toNat) →
      ∀ (seekable : Bool) (chunk : ℕ), ∃ reads,
        Reader.Reads ⟨.knapsack, {}⟩ (.ofBytes (bytesOf (renderAll ks)) seekable chunk) reads ∧
        ks.mapM toInstance = .ok (reads.map Prod.fst) ∧
        ∀ i x, reads[i]? = some x →
          x.2.offset = (bytesOf (renderAll (ks.take (i + 1)))).length ∧
            (x.2.atEnd = true ↔ i + 1 = ks.length)) ∧
    ∀ (input : InputStream) (reads : List (Instance × Cursor)),
      Reader.Reads ⟨.knapsack, {}⟩ input reads →
      (∃ ks : List Knapsack, ks.mapM toInstance = .ok (reads.map Prod.fst)) ∧
      ∀ ks : List Knapsack, ks.mapM toInstance = .ok (reads.map Prod.fst) →
        ∀ (seekable : Bool) (chunk : ℕ), ∃ reads',
          Reader.Reads ⟨.knapsack, {}⟩ (.ofBytes (bytesOf (renderAll ks)) seekable chunk) reads' ∧
          reads'.map Prod.fst = reads.map Prod.fst := by
  constructor
  · intro ks h seekable chunk
    have hstorable : ∀ k ∈ ks, k.Storable := fun k hk => ⟨(h k hk).1, Nat.le_of_lt (h k hk).2⟩
    obtain ⟨reads, hreads, hinsts, hplaces⟩ := reads_renderAll hstorable {} (by rintro ⟨⟩)
      (.ofBytes (bytesOf (renderAll ks)) seekable chunk) rfl
    refine ⟨reads, hreads, hinsts, fun i x hx => ?_⟩
    obtain ⟨hoffset, hlast⟩ := hplaces i x hx
    exact ⟨hoffset.trans (Nat.zero_add _), hlast⟩
  · intro input reads hreads
    obtain ⟨ks, hks, hinsts⟩ := exists_knapsacks_of_reads rfl hreads
    refine ⟨⟨ks, hinsts⟩, fun ks' hinsts' seekable chunk => ?_⟩
    have hstorable := storable_of_instances hinsts hinsts' hks
    obtain ⟨reads', hreads', hsame, -⟩ := reads_renderAll hstorable {} (by rintro ⟨⟩)
      (.ofBytes (bytesOf (renderAll ks')) seekable chunk) rfl
    refine ⟨reads', hreads', ?_⟩
    rw [hinsts'] at hsame
    exact (Except.ok.inj hsame).symm

/-- Names that look like other lines of an entry are no exceptions, nor are an entry without items
and words that have no negative. -/
theorem reads_render_separator :
    let ks : List Knapsack :=
      [⟨separator, -3, []⟩, ⟨"12", Int64.minValue, [⟨Int64.minValue, 7⟩]⟩]
    ∃ reads,
      Reader.Reads ⟨.knapsack, {}⟩ (.ofBytes (bytesOf (renderAll ks)) false 1) reads ∧
      ks.mapM toInstance = .ok (reads.map Prod.fst) ∧
      ∀ i x, reads[i]? = some x →
        x.2.offset = (bytesOf (renderAll (ks.take (i + 1)))).length ∧
          (x.2.atEnd = true ↔ i + 1 = ks.length) := by
  intro ks
  have hseparator : IsEntryName separator := ⟨⟨by decide, by decide⟩, by decide⟩
  have hdigits : IsEntryName "12" := ⟨⟨by decide, by decide⟩, by decide⟩
  refine reads_render.1 ks (List.forall_mem_cons.2 ⟨⟨hseparator, by decide⟩, ?_⟩) false 1
  exact List.forall_mem_singleton.2 ⟨hdigits, by decide⟩

end Knapsack

end LinearInterchange
