import LinearInterchange.Format.Knapsack.Basic
import LinearInterchange.Input.Stream
import LinearInterchange.Text.Parser
import LinearInterchange.Text.Blank

/-! # Reading knapsack streams

A stream holds any number of entries, each of the form

```text
knapPI_1_50_1000_1
n 50
c 995
z 8373
time 0.00
1,94,485,0
2,506,326,0
-----
```

The lines of the items hold number, profit, weight and perhaps a solution. The header lines after
`n` may be missing, except the capacity `c`; those with other keys are skipped. White space
between entries is skipped as well. -/

namespace LinearInterchange.Knapsack

open Text

/-- What the reader refuses. -/
inductive Fault where
  | noName
  | badName (name : List Char)
  | noCount
  | itemBeforeCapacity
  | wrongNumber (expected : Nat) (found : UInt32)
  | tooManyItems (count : UInt32)
  | secondCapacity
  | badItem (line : List Char)
  | badHeader (line : List Char)
  | noCapacity
  | wrongCount (expected : UInt32) (found : Nat)

/-- The wording of a fault. -/
def Fault.refusal : Fault → Refusal
  | .noName => .malformed "expected instance name"
  | .badName name => .malformed ("invalid instance name `" ++ String.ofList name ++ "`")
  | .noCount => .malformed "expected `n <items>` line"
  | .itemBeforeCapacity => .malformed "item before capacity line"
  | .wrongNumber expected found =>
    .malformed ("expected item " ++ toString expected ++ ", found item " ++ toString found)
  | .tooManyItems count => .malformed ("more than " ++ toString count ++ " items")
  | .secondCapacity => .malformed "unexpected capacity line"
  | .badItem line => .malformed ("invalid item line `" ++ String.ofList line ++ "`")
  | .badHeader line => .malformed ("invalid header line `" ++ String.ofList line ++ "`")
  | .noCapacity => .malformed "missing capacity line"
  | .wrongCount expected found =>
    .malformed ("expected " ++ toString expected ++ " items, found " ++ toString found)

section Lines

open Parser

/-- A header line with a given key and a value that `p` reads. -/
def headerLine {α : Type} (key : Char) (p : Parser α) : Parser α := do
  spaces
  char key
  spaces1
  let a ← p
  spaces
  return a

/-- A header line of any key; its value is a word. -/
def anyHeader : Parser Unit := do
  let _ ← run1 Char.isAlpha
  spaces1
  let _ ← run1 fun c => !isBlank c

/-- The line of an item: its number and the item. -/
def itemLine : Parser (UInt32 × KnapsackItem) := do
  let n ← index
  char ','
  let profit ← word
  char ','
  let weight ← word
  let _ ← optional? (do
    char ','
    index)
  return (n, ⟨profit, weight⟩)

end Lines

/-- What was read of an entry. -/
inductive Progress where
  | start
  | named (name : String)
  | body (name : String) (count : UInt32) (capacity : Option Int64) (items : List KnapsackItem)

/-- Reads the line of a name, which is one word without commas. -/
def readName (cs : List Char) : Except Fault String :=
  if cs.isEmpty || cs.any isBlank || cs.contains ',' then .error (.badName cs)
  else .ok (String.ofList cs)

/-- Adds an item with its number to those of an entry. -/
def addItem (count : UInt32) (capacity : Option Int64) (items : List KnapsackItem) (n : UInt32)
    (item : KnapsackItem) : Except Fault (List KnapsackItem) :=
  if capacity.isNone then .error .itemBeforeCapacity
  else if n.toNat ≠ items.length + 1 then .error (.wrongNumber (items.length + 1) n)
  else if items.length = count.toNat then .error (.tooManyItems count)
  else .ok (items ++ [item])

/-- Reads a line, free of white space at its ends, below the number of items. It is an item, a
capacity, or a header without meaning; headers have to come before the items. -/
def readBody (count : UInt32) (capacity : Option Int64) (items : List KnapsackItem)
    (cs : List Char) : Except Fault (Option Int64 × List KnapsackItem) :=
  match itemLine.parseWhole? cs with
  | some (n, item) => (addItem count capacity items n item).map (capacity, ·)
  | none =>
    match (headerLine 'c' Parser.word).parseWhole? cs with
    | some c =>
      if items.isEmpty && capacity.isNone then .ok (some c, items) else .error .secondCapacity
    | none =>
      if !items.isEmpty then .error (.badItem cs)
      else if (anyHeader.parseWhole? cs).isNone then .error (.badHeader cs)
      else .ok (capacity, items)

/-- Adds a line to an entry; the separator ends it. -/
def Progress.addText (text : String) :
    Progress → Except Fault (InputStream.LineStep Progress)
  | start => do return .more (.named (← readName (trim text.toList)))
  | named name =>
    match (headerLine 'n' Parser.index).parseWhole? (trimRight text.toList) with
    | some count => .ok (.more (.body name count none []))
    | none => .error .noCount
  | body name count capacity items => do
    let cs := trim text.toList
    if cs = separator.toList then return .done (.body name count capacity items)
    if cs.isEmpty then return .more (.body name count capacity items)
    let (capacity, items) ← readBody count capacity items cs
    return .more (.body name count capacity items)

/-- The knapsack of an entry that was read to its end. -/
def Progress.finish : Progress → Except Fault Knapsack
  | start => .error .noName
  | named _ => .error .noCount
  | body name count capacity items =>
    match capacity with
    | none => .error .noCapacity
    | some capacity =>
      if items.length ≠ count.toNat then .error (.wrongCount count items.length)
      else .ok ⟨name, capacity, items⟩

/-- Adds a line at a position to an entry. -/
def Progress.addLine (s : Progress) (pos : Position) (text : String) :
    Except ReadError (InputStream.LineStep Progress) :=
  pos.report Fault.refusal (s.addText text)

/-- Reads an entry of a stream, up to its separator or the end of the stream. -/
def decodeEntry (input : InputStream) : Except ReadError Knapsack × InputStream :=
  match input.foldLines Progress.addLine .start input.position with
  | (.error e, input) => (.error e, input)
  | (.ok (s, _), input) => (input.position.report Fault.refusal s.finish, input)

/-- Reads the next entry of a stream, if there is one, and skips the white space around it. The
cursor is that of what follows. -/
def decodeNext (input : InputStream) :
    Except ReadError (Option Knapsack × Cursor) × InputStream :=
  match input.skipWhitespace with
  | (true, input) => (.ok (none, input.cursor true), input)
  | (false, input) =>
    match decodeEntry input with
    | (.error e, input) => (.error e, input)
    | (.ok k, input) =>
      let (ended, input) := input.skipWhitespace
      (.ok (some k, input.cursor ended), input)

/-- An entry takes up at least one line. -/
theorem length_rest_decodeEntry {input input' : InputStream} {k : Knapsack}
    (h : decodeEntry input = (.ok k, input')) :
    input'.source.rest.length < input.source.rest.length := by
  unfold decodeEntry at h
  split at h
  · simp at h
  next s p input₁ hfold =>
    simp only [Prod.mk.injEq] at h
    obtain ⟨hfinish, rfl⟩ := h
    rcases InputStream.foldLines_ok hfold with ⟨rfl, -⟩ | hlt
    · cases hfinish
    · exact hlt

/-- Decoding an entry leaves less than there was. -/
theorem length_rest_decodeNext {input input' : InputStream} {k : Knapsack} {c : Cursor}
    (h : decodeNext input = (.ok (some k, c), input')) :
    input'.source.rest.length < input.source.rest.length := by
  unfold decodeNext at h
  have hskip := InputStream.length_rest_skipWhitespace_le input
  split at h
  · simp at h
  next input₁ heq =>
    rw [heq] at hskip
    split at h
    · simp at h
    next k' input₂ hentry =>
      have hlt := length_rest_decodeEntry hentry
      have hskip' := InputStream.length_rest_skipWhitespace_le input₂
      simp only [Prod.mk.injEq] at h
      rw [← h.2]
      exact Nat.lt_of_le_of_lt hskip' (Nat.lt_of_lt_of_le hlt hskip)

end LinearInterchange.Knapsack
