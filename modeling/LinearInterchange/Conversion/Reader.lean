import LinearInterchange.Format.Exchange.Reader
import LinearInterchange.Format.FlatZinc.Reader
import LinearInterchange.Format.Knapsack.Reader
import LinearInterchange.Format.Lp.Reader
import LinearInterchange.Format.Mps.Reader

/-! # Readers

A reader decodes the instances of a stream one after another. It remembers where the last one
ended; that cursor only moves when an instance was decoded. -/

namespace LinearInterchange

/-- The formats that can be read. -/
inductive ReaderKind where
  | mps
  | lp
  | knapsack
  | flatZinc
  | exchange
  deriving DecidableEq

/-- A format that can be read, with its settings. -/
inductive InputFormat where
  | mps (settings : Table.Settings)
  | lp (settings : Table.Settings)
  | knapsack
  | flatZinc (settings : FlatZinc.Settings)
  | exchange

/-- The format with the settings among the options. -/
def ReaderKind.configure (opts : Options) : ReaderKind → Except ConfigError InputFormat
  | mps => (Table.Settings.ofOptions opts "mps").map .mps
  | lp => (Table.Settings.ofOptions opts "lp").map .lp
  | knapsack => (opts.checkReaderKeys "pisinger" []).map fun _ => .knapsack
  | flatZinc => (FlatZinc.Settings.ofOptions opts).map .flatZinc
  | exchange => (opts.checkReaderKeys "inc" []).map fun _ => .exchange

namespace InputFormat

/-- A stream can hold more than one instance. -/
def isMulti : InputFormat → Bool
  | knapsack => true
  | _ => false

/-- Decodes the next instance, if there is one. The cursor is that of what follows. -/
def decode (f : InputFormat) (input : InputStream) :
    Except ReadError (Option Instance × Cursor) × InputStream :=
  match f with
  | knapsack =>
    match Knapsack.decodeNext input with
    | (.error e, input) => (.error e, input)
    | (.ok (none, c), input) => (.ok (none, c), input)
    | (.ok (some k, c), input) =>
      let inst := input.position.report Refusal.defect k.toInstance
      (inst.map fun inst => (some inst, c), input)
  | mps s => single (Mps.decode s input)
  | lp s => single (Lp.decode s input)
  | flatZinc s => single (FlatZinc.decode s input)
  | exchange => single (Exchange.decode input)
where
  /-- The only instance of a stream. -/
  single : Except ReadError Instance × InputStream →
      Except ReadError (Option Instance × Cursor) × InputStream
    | (outcome, input) => (outcome.map fun inst => (some inst, input.cursor true), input)

/-- A knapsack that is decoded is made an instance. -/
theorem decode_knapsack_ok {input input' : InputStream} {inst : Instance} {c : Cursor}
    (h : knapsack.decode input = (.ok (some inst, c), input')) :
    ∃ k, Knapsack.decodeNext input = (.ok (some k, c), input') ∧ k.toInstance = .ok inst := by
  simp only [decode] at h
  split at h
  · simp at h
  · simp at h
  next k c' input₁ hnext =>
    obtain ⟨hinst, rfl⟩ := Prod.mk.inj h
    cases hk : k.toInstance with
    | error a =>
      rw [hk] at hinst
      cases hinst
    | ok inst' =>
      rw [hk] at hinst
      cases hinst
      exact ⟨k, hnext, hk⟩

end InputFormat

/-- A format with the cursor after the last instance that was decoded. -/
structure Reader where
  format : InputFormat
  cursor : Cursor := {}

namespace Reader

/-- Decodes the next instance of a stream. There is none after the end of the stream. -/
def next (r : Reader) (input : InputStream) :
    Except ReadError (Option Instance) × Reader × InputStream :=
  if r.cursor.atEnd then (.ok none, r, input)
  else
    match r.format.decode input with
    | (.error e, input) => (.error e, r, input)
    | (.ok (inst, cursor), input) => (.ok inst, { r with cursor }, input)

/-- A reader keeps its format. -/
theorem format_next (r : Reader) (input : InputStream) :
    (r.next input).2.1.format = r.format := by
  unfold next
  split
  · rfl
  · split <;> rfl

/-- Whatever a reader decodes, it keeps its format. -/
theorem format_of_next {r r' : Reader} {input input' : InputStream}
    {outcome : Except ReadError (Option Instance)} (h : r.next input = (outcome, r', input')) :
    r'.format = r.format := by
  have hkept := r.format_next input
  rwa [h] at hkept

/-- An instance is decoded from what the format makes of the stream. -/
theorem next_ok {r r' : Reader} {input input' : InputStream} {inst : Instance}
    (h : r.next input = (.ok (some inst), r', input')) :
    r.cursor.atEnd = false ∧ r'.format = r.format ∧
      r.format.decode input = (.ok (some inst, r'.cursor), input') := by
  unfold next at h
  split at h
  · simp at h
  next hend =>
    split at h
    · simp at h
    next inst' cursor input₁ hdecode =>
      simp only [Prod.mk.injEq, Except.ok.injEq] at h
      obtain ⟨rfl, rfl, rfl⟩ := h
      exact ⟨by simpa using hend, rfl, hdecode⟩

/-- Decoding one of several instances leaves less than there was. -/
theorem length_rest_next {r r' : Reader} {input input' : InputStream} {inst : Instance}
    (h : r.next input = (.ok (some inst), r', input')) (hmulti : r'.format.isMulti = true) :
    input'.source.rest.length < input.source.rest.length := by
  obtain ⟨-, hformat, hdecode⟩ := next_ok h
  rw [hformat] at hmulti
  have hknapsack : r.format = .knapsack := by
    cases hf : r.format <;> simp_all [InputFormat.isMulti]
  rw [hknapsack] at hdecode
  obtain ⟨k, hk, -⟩ := InputFormat.decode_knapsack_ok hdecode
  exact Knapsack.length_rest_decodeNext hk

end Reader

end LinearInterchange
