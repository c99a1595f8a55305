import LinearInterchange.Conversion.Batch
import LinearInterchange.Proofs.CountedRuns

/-!
# Inputs of a batch are isolated

A batch converts its inputs one after another into one stream.  If the stream takes every write,
nothing that an input does is seen by the next one: a run writes the same texts to a stream whatever
the stream has taken before (`runFrom_precede`), and every input gets a converter of its own.  So a
batch gives what its inputs give alone, put together in their order.

The inputs share one thing, which is the standard input.  Named a second time, it holds what the
first run has left of it; `parts` hands it on from input to input.
-/

namespace LinearInterchange

/-! ## Streams that have taken something before -/

/-- The outlet goes into a stream, which takes every write. -/
structure Outlet.TakesAll (out : Outlet) : Prop where
  target : out.target = .stream
  device : out.device = {}

/-- The outlet with texts in front of all that its stream has taken. -/
def Outlet.precede (earlier : List (List UInt8)) (out : Outlet) : Outlet :=
  { out with offered := earlier ++ out.offered, received := earlier.flatten ++ out.received }

/-- A stream that takes every write does not fail. -/
lemma Outlet.TakesAll.not_streamFails {out : Outlet} (h : out.TakesAll) {bytes part : List UInt8}
    {fault : SystemFault} : ¬out.StreamFails bytes fault part := by
  intro hfails
  cases hfails with
  | write hwrite =>
    rw [h.device] at hwrite
    cases hwrite
  | flush _ hflush =>
    rw [h.device] at hflush
    cases hflush

/-- A run leaves nothing more in a stream that takes every write. -/
lemma Run.Leaves.eq_of_takesAll {settings : Settings} {writer : OutputFormat}
    {next : Except ReadError (Option Instance)} {out out' : Outlet}
    {outcome : Except RunError RunSummary} (h : Run.Leaves settings writer next out outcome out')
    (hout : out.TakesAll) : out' = out := by
  cases h with
  | nothing => rfl
  | part _ _ _ hfails => exact absurd hfails hout.not_streamFails

namespace Converter

variable {out : Outlet}

/-- A stream that takes every write takes a text whole. -/
lemma commit_of_takesAll (h : out.TakesAll) (name : Option String) (extension text : String) :
    out.commit name extension text = (.ok none, out.took (bytesOf text) (bytesOf text)) := by
  rw [commit_stream h.target, Outlet.commitStream, h.device]
  rfl

/-- What is committed does not depend on what a stream has taken before. -/
lemma commit_precede (earlier : List (List UInt8)) (h : out.TakesAll) (name : Option String)
    (extension text : String) :
    (out.precede earlier).commit name extension text =
      ((out.commit name extension text).1, (out.commit name extension text).2.precede earlier) := by
  have hprecede : (out.precede earlier).TakesAll := ⟨h.1, h.2⟩
  rw [commit_of_takesAll h, commit_of_takesAll hprecede]
  simp [Outlet.precede, Outlet.took]

/-- An instance is stored whatever a stream has taken before. -/
lemma store_precede (earlier : List (List UInt8)) (h : out.TakesAll) (writer : OutputFormat)
    (inst : Instance) :
    store writer inst (out.precede earlier) =
      ((store writer inst out).1, (store writer inst out).2.precede earlier) := by
  unfold store
  split
  · rfl
  · rw [commit_precede earlier h]

/-- An instance is processed whatever a stream has taken before. -/
lemma process_precede (c : Converter) (earlier : List (List UInt8)) (h : out.TakesAll)
    (inst : Instance) :
    c.process inst (out.precede earlier) =
      ((c.process inst out).1, (c.process inst out).2.precede earlier) := by
  unfold process
  split
  · rfl
  · rw [store_precede earlier h]

/-- A stream that takes every write goes on to do so. -/
lemma takesAll_process (c : Converter) (h : out.TakesAll) (inst : Instance) :
    (c.process inst out).2.TakesAll := by
  rcases hprocess : c.process inst out with ⟨⟨stage, e⟩ | ⟨aux, path⟩, out'⟩
  · obtain ⟨-, -, hout⟩ := process_error hprocess
    rcases hout h.target with ⟨-, rfl⟩ | ⟨text, fault, part, -, -, hfails, -⟩
    · exact h
    · exact absurd hfails h.not_streamFails
  · obtain ⟨text, -, hout⟩ := process_ok hprocess
    rw [hout h.target]
    exact ⟨h.target, h.device⟩

/-- A run does the same whatever a stream has taken before, and writes the same texts to it. -/
lemma runFrom_precede (earlier : List (List UInt8)) (source : String) (s : RunSummary)
    (c : Converter) (input : InputStream) (out : Outlet) (h : out.TakesAll) :
    c.runFrom source s input (out.precede earlier) =
      { c.runFrom source s input out with
        out := (c.runFrom source s input out).out.precede earlier } := by
  -- which branch a run takes depends on what `process` answers, and the texts in front leave that
  -- as it is
  fun_induction runFrom source s c input out
  case case1 s c input out index e r₁ input₁ hnext =>
    rw [runFrom_of_read_error hnext]
  case case2 s c input out r₁ input₁ hnext =>
    rw [runFrom_of_none hnext]
  case case3 s c input out index inst r₁ input₁ hnext label c₁ stage e out₁ hprocess =>
    have hsame := c₁.process_precede earlier h inst
    rw [hprocess] at hsame
    rw [runFrom_of_process_error hnext hsame]
  case case4 s c input out inst r₁ input₁ hnext c₁ aux path out₁ hprocess s₁ hend =>
    have hsame := c₁.process_precede earlier h inst
    rw [hprocess] at hsame
    rw [runFrom_of_process_ok hnext hsame, if_pos hend]
    rfl
  case case5 s c input out inst r₁ input₁ hnext c₁ aux path out₁ hprocess s₁ hend hreached =>
    have hsame := c₁.process_precede earlier h inst
    rw [hprocess] at hsame
    rw [runFrom_of_process_ok hnext hsame, if_neg hend, if_pos hreached]
    rfl
  case case6 s c input out inst r₁ input₁ hnext c₁ aux path out₁ hprocess s₁ hend hreached ih =>
    have hsame := c₁.process_precede earlier h inst
    have htakes := c₁.takesAll_process h inst
    rw [hprocess] at hsame htakes
    rw [runFrom_of_process_ok hnext hsame, if_neg hend, if_neg hreached]
    exact ih htakes

/-- A run into a stream that takes every write changes nothing of the outlet but what the stream has
taken. -/
lemma out_run (c : Converter) (input : InputStream) (source : String) (folder : Folder) :
    (c.run input source { folder }).out =
      Outlet.tookAll { folder } (c.run input source { folder }).out.offered := by
  obtain ⟨insts, after, rest, h⟩ := c.run_accounted ⟨input, source, { folder }⟩
  obtain ⟨texts, -, hleaves⟩ := h.committed
  have hout : (c.run input source { folder }).out =
      Outlet.tookAll { folder } (texts.map bytesOf) := (hleaves rfl).eq_of_takesAll ⟨rfl, rfl⟩
  rw [hout]
  rfl

/-- A run into a stream that takes every write and has taken texts before. -/
lemma run_tookAll (c : Converter) (input : InputStream) (source : String)
    (earlier : List (List UInt8)) (folder : Folder) :
    c.run input source (Outlet.tookAll { folder } earlier) =
      { c.run input source { folder } with
        out := Outlet.tookAll { folder }
          (earlier ++ (c.run input source { folder }).out.offered) } := by
  have h := runFrom_precede earlier source {} c input { folder } ⟨rfl, rfl⟩
  have hstart : Outlet.precede earlier { folder } = Outlet.tookAll { folder } earlier := by
    simp [Outlet.precede, Outlet.tookAll]
  have hout : (c.run input source { folder }).out.precede earlier = Outlet.tookAll { folder }
      (earlier ++ (c.run input source { folder }).out.offered) := by
    rw [out_run]
    simp [Outlet.precede, Outlet.tookAll]
  rw [hstart] at h
  rw [← hout]
  exact h

end Converter

namespace Batch

variable (registry : Registry) (job : Job) (folder : Folder)

/-! ## One input -/

/-- What comes of an input: its outcome, and the texts that a stream receives for it. -/
structure Part where
  input : Input
  outcome : Except ConvertError RunSummary
  texts : List (List UInt8)

/-- What comes of an input that is converted alone. -/
def alone (standard : List UInt8) (input : Input) : Part :=
  let converted := convertInput registry job input ⟨{ folder }, standard⟩
  ⟨input, converted.1, converted.2.out.offered⟩

/-- What is left of the standard input by an input that is converted alone. -/
def leaves (standard : List UInt8) (input : Input) : List UInt8 :=
  (convertInput registry job input ⟨{ folder }, standard⟩).2.standard

/-- An input that is converted after others has the outcome that it has alone, and writes the texts
that it gives alone. -/
lemma convertInput_tookAll (earlier : List (List UInt8)) (standard : List UInt8)
    (input : Input) :
    convertInput registry job input ⟨.tookAll { folder } earlier, standard⟩ =
      ((alone registry job folder standard input).outcome,
        ⟨.tookAll { folder } (earlier ++ (alone registry job folder standard input).texts),
          leaves registry job folder standard input⟩) := by
  have hfolder : (Outlet.tookAll { folder } earlier).folder = folder := rfl
  unfold alone leaves convertInput
  split
  next => simp
  next converter hconverter =>
    cases input with
    | standard => simp only [Converter.run_tookAll]
    | file path =>
      simp only [hfolder]
      split
      next => simp
      next => simp
      next => simp only [Converter.run_tookAll]

/-- A file is converted without the standard input. -/
lemma leaves_file (standard : List UInt8) (path : String) :
    leaves registry job folder standard (.file path) = standard := by
  unfold leaves convertInput
  split
  · rfl
  · simp only
    split <;> rfl

/-- What comes of a file does not depend on the standard input. -/
lemma alone_file (standard standard' : List UInt8) (path : String) :
    alone registry job folder standard (.file path) =
      alone registry job folder standard' (.file path) := by
  unfold alone convertInput
  split
  · rfl
  · simp only
    split <;> rfl

/-! ## All inputs -/

/-- What comes of each input of a batch: what comes of it alone, with the standard input that the
inputs before it have left. -/
def parts (standard : List UInt8) : List Input → List Part
  | [] => []
  | input :: inputs =>
    alone registry job folder standard input ::
      parts (leaves registry job folder standard input) inputs

/-- There is a part for each input. -/
lemma map_input_parts (standard : List UInt8) (inputs : List Input) :
    (parts registry job folder standard inputs).map (·.input) = inputs := by
  induction inputs generalizing standard with
  | nil => rfl
  | cons input inputs ih => exact congrArg (input :: ·) (ih _)

/-- A batch gives the parts one after another. -/
lemma convertAll_eq_parts (earlier : List (List UInt8)) (standard : List UInt8)
    (inputs : List Input) :
    ∃ left, convertAll registry job inputs ⟨.tookAll { folder } earlier, standard⟩ =
      ((parts registry job folder standard inputs).map fun p => (p.input, p.outcome),
        ⟨.tookAll { folder }
            (earlier ++ (parts registry job folder standard inputs).flatMap (·.texts)),
          left⟩) := by
  induction inputs generalizing earlier standard with
  | nil => exact ⟨standard, by simp [convertAll, parts]⟩
  | cons input inputs ih =>
    obtain ⟨left, hrest⟩ := ih (earlier ++ (alone registry job folder standard input).texts)
      (leaves registry job folder standard input)
    refine ⟨left, ?_⟩
    rw [convertAll, convertInput_tookAll]
    simp only [hrest, parts, List.map_cons, List.flatMap_cons, List.append_assoc]
    rfl

/-- The standard input is whole for an input as long as it was not named before. -/
lemma parts_getElem? (standard : List UInt8) {input : Input} (before after : List Input)
    (h : input ≠ .standard ∨ .standard ∉ before) :
    (parts registry job folder standard (before ++ input :: after))[before.length]? =
      some (alone registry job folder standard input) := by
  induction before generalizing standard with
  | nil => rfl
  | cons first before ih =>
    rw [List.cons_append, parts, List.length_cons, List.getElem?_cons_succ,
      ih _ (h.imp_right fun hnot hmem => hnot (List.mem_cons_of_mem _ hmem))]
    cases input with
    | file path => rw [alone_file]
    | standard =>
      cases first with
      | standard => exact (h.elim (absurd rfl) fun hnot => absurd List.mem_cons_self hnot)
      | file path => rw [leaves_file]

/-- Inputs in another order give the same parts in another order. -/
lemma parts_perm (standard : List UInt8) {inputs inputs' : List Input}
    (h : inputs.Perm inputs') :
    (parts registry job folder standard inputs).Perm
      (parts registry job folder standard inputs') := by
  induction h generalizing standard with
  | nil => exact .nil
  | cons input _ ih => exact (ih _).cons _
  | swap first second inputs =>
    -- two inputs of which one is a file do not touch each other
    cases first with
    | standard =>
      cases second with
      | standard => exact .refl _
      | file path =>
        rw [parts, parts, parts, parts, leaves_file, leaves_file,
          alone_file registry job folder (leaves registry job folder standard .standard) standard]
        exact .swap ..
    | file path =>
      rw [parts, parts, parts, parts, leaves_file, leaves_file,
        alone_file registry job folder (leaves registry job folder standard second) standard]
      exact .swap ..
  | trans _ _ ih ih' => exact (ih standard).trans (ih' standard)

/-- **Inputs of a batch are isolated.**  A batch that goes into a stream which takes every write has
one outcome for each input, in order, and the stream takes the texts of the inputs in order.  The
outcome and the texts of an input are those that it gives alone, unless it is the standard input and
was named before; then it finds what is left of it.  Inputs in another order give the same outcomes
with the same texts, in the other order. -/
theorem convertAll_isolated (earlier : List (List UInt8)) (standard : List UInt8)
    (inputs : List Input) :
    let batch := convertAll registry job inputs ⟨.tookAll { folder } earlier, standard⟩
    let results := parts registry job folder standard inputs
    results.map (·.input) = inputs ∧
    batch.1 = results.map (fun p => (p.input, p.outcome)) ∧
    batch.2.out = .tookAll { folder } (earlier ++ results.flatMap (·.texts)) ∧
    (∀ before input after, inputs = before ++ input :: after →
      input ≠ .standard ∨ .standard ∉ before →
      results[before.length]? = some (alone registry job folder standard input)) ∧
    ∀ inputs', inputs.Perm inputs' →
      results.Perm (parts registry job folder standard inputs') := by
  intro batch results
  obtain ⟨left, hbatch⟩ := convertAll_eq_parts registry job folder earlier standard inputs
  refine ⟨map_input_parts .., congrArg Prod.fst hbatch, congrArg (·.2.out) hbatch, ?_, ?_⟩
  · rintro before input after hinputs h
    show (parts registry job folder standard inputs)[before.length]? = _
    rw [hinputs]
    exact parts_getElem? registry job folder standard before after h
  · exact fun inputs' h => parts_perm registry job folder standard h

/-- A file that is not there, the standard input and a stream of knapsacks that breaks off: each one
gives what it gives alone, and the instance before the break is in the stream. -/
theorem convertAll_isolated_mixed :
    let job : Job := { reader := "pisinger", writer := "inc" }
    let folder := ({} : Folder).addFile "k" (bytesOf "b\nn 0\nc 1\n-----\n\nc")
    let standard := bytesOf "a\nn 0\nc 0\n-----\n"
    let inputs : List Input := [.file "x", .standard, .file "k"]
    let batch := convertAll .standard job inputs ⟨.tookAll { folder } [bytesOf "c\n"], standard⟩
    let results := parts .standard job folder standard inputs
    (inputs = [.file "x"] ++ Input.standard :: [.file "k"] ∧ Input.standard ∉ [Input.file "x"] ∧
      inputs.Perm [.file "k", .file "x", .standard]) ∧
    results[1]? = some (alone .standard job folder standard .standard) ∧
    results.Perm (parts .standard job folder standard [.file "k", .file "x", .standard]) ∧
    batch.1 = results.map (fun p => (p.input, p.outcome)) ∧
    batch.2.out.offered = [bytesOf "c\n"] ++ results.flatMap (·.texts) ∧
    results.map (·.texts) =
      [[], [bytesOf "c 0 variables, 1 constraints, written by ilpconv\nn a\no max\nk <= 0\n"],
        [bytesOf "c 0 variables, 1 constraints, written by ilpconv\nn b\no max\nk <= 1\n"]] := by
  intro job folder standard inputs batch results
  have hnot : Input.standard ∉ [Input.file "x"] := by decide
  have hperm : inputs.Perm [.file "k", .file "x", .standard] := by decide
  obtain ⟨-, hbatch, hout, hwhole, hresults⟩ :=
    convertAll_isolated .standard job folder [bytesOf "c\n"] standard inputs
  refine ⟨⟨rfl, hnot, hperm⟩, hwhole [.file "x"] .standard [.file "k"] rfl (.inr hnot),
    hresults _ hperm, hbatch, congrArg Outlet.offered hout, ?_⟩
  decide +kernel

/-- The standard input is one stream.  Where it is named twice, the first run has read it to its end
and the second one finds nothing, though alone it would have found an instance. -/
theorem standard_named_twice :
    let job : Job := { reader := "pisinger", writer := "inc" }
    let standard := bytesOf "a\nn 0\nc 0\n-----\n"
    let twice := convertAll .standard job [.standard, .standard] ⟨{}, standard⟩
    let once := convertAll .standard job [.standard] ⟨{}, standard⟩
    once.1 = [(.standard, .ok { written := 1, exhausted := true })] ∧
    twice.1 = once.1 ++ [(.standard, .ok { written := 0, exhausted := true })] ∧
    twice.2.out.received = once.2.out.received ∧
    once.2.out.received ≠ once.2.out.received ++ once.2.out.received := by
  decide +kernel

end Batch

end LinearInterchange
