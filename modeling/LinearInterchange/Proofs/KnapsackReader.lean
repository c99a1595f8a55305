import LinearInterchange.Conversion.Reader
import LinearInterchange.Proofs.KnapsackInstances
import LinearInterchange.Proofs.StreamReading

/-!
# What the knapsack reader accepts

The first line of an entry has to be a word without commas, and no later line changes the name, so
every knapsack that is decoded has a name that can be told from the rest of its entry.  Everything
else that the reader refuses, it refuses for what stands on a line.
-/

namespace LinearInterchange.Knapsack

open Text

variable {name : String} {count : UInt32} {capacity : Option Int64} {items : List KnapsackItem}

/-- The name of a knapsack can be told from the rest of its entry: it is a word without commas. -/
structure IsEntryName (name : String) : Prop where
  word : IsWord name.toList
  no_comma : ',' ∉ name.toList

/-- A name that the reader accepts can be told from the rest of the entry. -/
lemma readName_eq_ok_iff {cs : List Char} :
    readName cs = .ok name ↔ IsEntryName name ∧ name.toList = cs := by
  unfold readName
  constructor
  · intro h
    split at h
    · cases h
    next hgood =>
      obtain rfl := Except.ok.inj h
      simp only [Bool.or_eq_true, List.isEmpty_iff, List.any_eq_true, List.contains_iff_mem,
        not_or, not_exists, not_and] at hgood
      rw [String.toList_ofList]
      refine ⟨⟨⟨?_, fun c hc => ?_⟩, ?_⟩, rfl⟩
      · rw [String.toList_ofList]
        exact hgood.1.1
      · rw [String.toList_ofList] at hc
        simpa using hgood.1.2 c hc
      · rw [String.toList_ofList]
        exact hgood.2
  · rintro ⟨hname, rfl⟩
    have hblank : name.toList.any isBlank = false := by
      rw [List.any_eq_false]
      exact fun c hc => by simp [hname.word.solid c hc]
    have hcomma : name.toList.contains ',' = false := by
      rw [Bool.eq_false_iff, ne_eq, List.contains_iff_mem]
      exact hname.no_comma
    have hempty : name.toList.isEmpty = false := List.isEmpty_eq_false_iff.2 hname.word.ne_nil
    rw [hempty, hblank, hcomma, String.ofList_toList]
    rfl

lemma isOrdinary_refusal (f : Fault) : f.refusal.IsOrdinary := by
  cases f <;> rintro a ⟨⟩

/-- The name that was read, if any, can be told from the rest of the entry. -/
def Progress.Named : Progress → Prop
  | .start => True
  | .named name => IsEntryName name
  | .body name _ _ _ => IsEntryName name

/-- A line keeps the name, or it is the line of the name. -/
lemma addText_settles {s : Progress} (h : s.Named) (text : String) :
    Settles (fun f => f.refusal.IsOrdinary)
      (InputStream.LineStep.LeadsTo Progress.Named Progress.Named) (s.addText text) := by
  refine Settles.imp (E := fun _ => True) ?_ (fun f _ => isOrdinary_refusal f) fun _ h => h
  cases s with
  | start =>
    rw [Progress.addText]
    cases hname : readName (trim text.toList) with
    | error f => exact True.intro
    | ok name => exact (readName_eq_ok_iff.1 hname).1
  | named name =>
    rw [Progress.addText]
    split
    · exact h
    · exact True.intro
  | body name count capacity items =>
    simp only [Progress.addText]
    split
    · exact h
    · split
      · exact h
      · exact Settles.after fun _ => h

/-- An entry that is read to its end gives a knapsack with its name. -/
lemma finish_settles {s : Progress} (h : s.Named) :
    Settles (fun f => f.refusal.IsOrdinary) (fun k => IsEntryName k.name) s.finish := by
  refine Settles.imp (E := fun _ => True) ?_ (fun f _ => isOrdinary_refusal f) fun _ h => h
  cases s with
  | start => exact True.intro
  | named name => exact True.intro
  | body name count capacity items =>
    cases capacity with
    | none => exact True.intro
    | some w =>
      rw [Progress.finish]
      split
      · exact True.intro
      · exact h

/-! ## Streams -/

/-- An entry is that of its lines, and it is refused behind them. -/
lemma decodeEntry_eq (input : InputStream) :
    decodeEntry input = input.readThrough Progress.addLine .start fun _ r ending =>
      ending.report Fault.refusal r.1.finish := by
  unfold decodeEntry InputStream.readThrough
  obtain ⟨outcome, input'⟩ := input.foldLines Progress.addLine .start input.position
  cases outcome <;> rfl

lemma uniform_decodeEntry : InputStream.Uniform decodeEntry := by
  rw [funext decodeEntry_eq]
  exact InputStream.uniform_readThrough _ _ _

/-- An entry is refused for what stands in it, or it gives a knapsack whose name can be told from
the rest of it. -/
lemma reading_decodeEntry (input : InputStream) :
    InputStream.Reading (fun k => IsEntryName k.name) input (decodeEntry input) := by
  have hstep : ∀ (s : Progress) (pos : Position) (text : String), s.Named → 1 ≤ pos.line →
      InputStream.IsLine text.toList → Settles ReadError.IsRefusal
        (InputStream.LineStep.LeadsTo Progress.Named Progress.Named) (s.addLine pos text) :=
    fun s pos text hs hpos _ => (addText_settles hs text).report hpos
  have hstart : Progress.Named .start := True.intro
  rw [decodeEntry_eq]
  exact InputStream.reading_readThrough hstep
    (fun base r ending _ hending hr _ => (finish_settles (or_self_iff.1 hr)).report hending)
    hstart input

/-- The next entry, if there is one, is refused for what stands in it, or it gives a knapsack whose
name can be told from the rest of it. -/
lemma reading_decodeNext (input : InputStream) :
    InputStream.Reading (fun r => ∀ k ∈ r.1, IsEntryName k.name) input (decodeNext input) := by
  have hskip := input.advances_skipWhitespace
  unfold decodeNext
  split
  next input₁ heq =>
    rw [heq] at hskip
    exact .of_settles (x := .ok (none, input₁.cursor true)) (by rintro k ⟨⟩) hskip
  next input₁ heq =>
    rw [heq] at hskip
    have hentry := reading_decodeEntry input₁
    split
    next e input₂ heq₂ =>
      rw [heq₂] at hentry
      exact .of_error (hskip.reading hentry)
    next k input₂ heq₂ =>
      rw [heq₂] at hentry
      have hmoved := (hskip.trans (hentry.tracks.advances InputStream.not_failed_ok)).trans
        input₂.advances_skipWhitespace
      refine .of_settles (x := .ok (some k, _)) ?_ hmoved
      rintro k' ⟨⟩
      exact hentry.settles

end LinearInterchange.Knapsack
