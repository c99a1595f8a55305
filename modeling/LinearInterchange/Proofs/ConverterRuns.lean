import LinearInterchange.Conversion.Converter
import LinearInterchange.Proofs.Outcome

/-!
# What a run leaves behind

A run takes the instances of a stream one after another and commits the text of each.  It keeps
four records of this: the outcome, the stage of the converter, what is left of the stream, and what
the outlet has received.  `Run.Accounted` says that they agree, and it holds of every run, whatever
runs the converter did before (`run_after`).

A stream that fails may have taken a part of the text that it was offered last.  It can be no other
instance than the one that the run fails on, and no other reason than the stream itself
(`Run.Leaves`); but nobody takes that part back.

The proof is one induction over the rounds of a run; what a round does to the outlet and which stage
it blames is said once, in `process_ok` and `process_error`.
-/

namespace LinearInterchange

/-- The stage that fails for a reason. -/
def StageError.stage : StageError → Stage
  | .read _ => .reading
  | .precision _ => .normalizing
  | .split _ => .splitting
  | .write _ => .writing
  | .output _ => .writing

/-- The stream of an outlet fails on bytes that it is offered, for a reason, and has taken a part of
them. -/
inductive Outlet.StreamFails (out : Outlet) (bytes : List UInt8) :
    SystemFault → List UInt8 → Prop
  /-- The bytes are not all taken. -/
  | write {taken : ℕ} {fault : SystemFault}
      (h : out.device.write out.offered bytes = some (taken, fault)) :
      StreamFails out bytes fault (bytes.take taken)
  /-- The bytes are all taken, and are not passed on. -/
  | flush {fault : SystemFault} (hwrite : out.device.write out.offered bytes = none)
      (hflush : out.device.flush (out.offered ++ [bytes]) = some fault) :
      StreamFails out bytes fault bytes

/-- A stream with room for so many bytes. -/
def Device.ofCapacity (capacity : ℕ) : Device where
  write offered bytes :=
    let left := capacity - offered.flatten.length
    if bytes.length ≤ left then none else some (left, .device "failed to write whole buffer")

/-- The outlet after its stream has taken texts whole, one after another. -/
def Outlet.tookAll (out : Outlet) (texts : List (List UInt8)) : Outlet :=
  { out with offered := out.offered ++ texts, received := out.received ++ texts.flatten }

namespace Outlet

variable {out : Outlet}

lemma tookAll_nil : out.tookAll [] = out := by
  simp [tookAll]

lemma tookAll_cons (bytes : List UInt8) (texts : List (List UInt8)) :
    out.tookAll (bytes :: texts) = (out.took bytes bytes).tookAll texts := by
  simp [tookAll, took]

/-- Bytes are committed to a stream that takes them all, and a stream that does not has taken a part
of them. -/
lemma commitStream_cases (out : Outlet) (bytes : List UInt8) :
    out.commitStream bytes = (.ok (), out.took bytes bytes) ∨
      ∃ fault part, out.StreamFails bytes fault part ∧
        out.commitStream bytes = (.error fault, out.took bytes part) := by
  unfold commitStream
  split
  next taken fault hwrite => exact .inr ⟨fault, _, .write hwrite, rfl⟩
  next hwrite =>
    split
    next fault hflush => exact .inr ⟨fault, _, .flush hwrite hflush, rfl⟩
    next => exact .inl rfl

end Outlet

/-- A reader decodes instances from a stream, one after another, and gets to another reader and to
what is left of the stream. -/
inductive Reader.Decodes : Reader → InputStream → List Instance → Reader → InputStream → Prop
  | nil (r : Reader) (input : InputStream) : Decodes r input [] r input
  | cons {r r₁ r₂ : Reader} {input input₁ input₂ : InputStream} {inst : Instance}
      {insts : List Instance} (hnext : r.next input = (.ok (some inst), r₁, input₁))
      (hrest : Decodes r₁ input₁ insts r₂ input₂) : Decodes r input (inst :: insts) r₂ input₂

namespace Converter

variable {c : Converter} {inst : Instance} {input : InputStream} {out out' : Outlet} {stage : Stage}
  {e : StageError}

/-! ## One instance -/

/-- The text is the complete encoding of what the stages before writing make of an instance. -/
def Encodes (settings : Settings) (writer : OutputFormat) (inst : Instance) (text : String) :
    Prop :=
  ∃ inst' aux, transform settings inst = .ok (inst', aux) ∧
    (writer.encode inst').output = (.ok (), text)

/-- Why a decoded instance is not committed. -/
inductive Rejects (settings : Settings) (writer : OutputFormat) (inst : Instance) :
    StageError → Prop
  /-- A stage before writing fails. -/
  | transform {stage : Stage} {e : StageError}
      (h : Converter.transform settings inst = .error (stage, e)) : Rejects settings writer inst e
  /-- What the stages before writing make of the instance is not encoded. -/
  | write {inst' : Instance} {aux : ℕ} {e : WriteError}
      (h : Converter.transform settings inst = .ok (inst', aux))
      (hwrite : (writer.encode inst').output.1 = .error e) : Rejects settings writer inst (.write e)
  /-- The complete encoding is not taken. -/
  | output {text : String} {fault : SystemFault} (h : Encodes settings writer inst text) :
      Rejects settings writer inst (.output fault)

/-- The stages before writing fail for reasons of their own. -/
lemma transform_error_cases {settings : Settings}
    (h : transform settings inst = .error (stage, e)) :
    (∃ err, stage = .normalizing ∧ e = .precision err) ∨
      ∃ err, stage = .splitting ∧ e = .split err := by
  rcases bind_eq_error.1 h with hscale | ⟨inst', -, hsplit⟩
  · unfold scale at hscale
    split at hscale
    · cases hscale
    · split at hscale <;> cases hscale
      exact .inl ⟨_, rfl, rfl⟩
  · unfold Converter.split at hsplit
    split at hsplit
    · cases hsplit
    · split at hsplit <;> cases hsplit
      exact .inr ⟨_, rfl, rfl⟩

/-- The stages before writing blame the stage that the reason belongs to. -/
lemma transform_error {settings : Settings}
    (h : transform settings inst = .error (stage, e)) : stage = e.stage := by
  rcases transform_error_cases h with ⟨err, rfl, rfl⟩ | ⟨err, rfl, rfl⟩ <;> rfl

/-- The stages before writing do not fail for what comes of the outlet. -/
lemma ne_output_of_transform {settings : Settings}
    (h : transform settings inst = .error (stage, e)) (fault : SystemFault) :
    e ≠ .output fault := by
  rcases transform_error_cases h with ⟨err, rfl, rfl⟩ | ⟨err, rfl, rfl⟩ <;> nofun

/-- A text is committed to a stream as its bytes. -/
lemma commit_stream (h : out.target = .stream) (name : Option String) (extension text : String) :
    out.commit name extension text = ((out.commitStream (bytesOf text)).1.map fun _ => none,
      (out.commitStream (bytesOf text)).2) := by
  rw [Outlet.commit, h]

/-- A text that is committed to a stream was taken by it. -/
lemma commit_stream_ok {name path : Option String} {extension text : String}
    (h : out.target = .stream) (hcommit : out.commit name extension text = (.ok path, out')) :
    out' = out.took (bytesOf text) (bytesOf text) := by
  rw [commit_stream h] at hcommit
  rcases out.commitStream_cases (bytesOf text) with hall | ⟨fault, part, -, hpart⟩
  · rw [hall] at hcommit
    exact (congrArg Prod.snd hcommit).symm
  · rw [hpart] at hcommit
    cases congrArg Prod.fst hcommit

/-- A text that is not committed to a stream has made the stream fail. -/
lemma commit_stream_error {name : Option String} {extension text : String} {fault : SystemFault}
    (h : out.target = .stream) (hcommit : out.commit name extension text = (.error fault, out')) :
    ∃ part, out.StreamFails (bytesOf text) fault part ∧ out' = out.took (bytesOf text) part := by
  rw [commit_stream h] at hcommit
  rcases out.commitStream_cases (bytesOf text) with hall | ⟨fault', part, hfails, hpart⟩
  · rw [hall] at hcommit
    cases congrArg Prod.fst hcommit
  · rw [hpart] at hcommit
    obtain ⟨hfault, hout⟩ := Prod.mk.inj hcommit
    obtain rfl := Except.error.inj hfault
    exact ⟨part, hfails, hout.symm⟩

/-- An instance is stored if its encoding succeeds and is committed. -/
lemma store_ok {writer : OutputFormat} {path : Option String}
    (h : store writer inst out = (.ok path, out')) :
    ∃ text, (writer.encode inst).output = (.ok (), text) ∧
      out.commit inst.name writer.extension text = (.ok path, out') := by
  unfold store at h
  split at h
  · cases h
  next text hwrite =>
    obtain ⟨hpath, rfl⟩ := Prod.mk.inj h
    exact ⟨text, hwrite, Prod.ext (mapError_eq_ok.1 hpath) rfl⟩

/-- An instance is not stored if its encoding fails, or if its complete text is not committed. -/
lemma store_error {writer : OutputFormat} (h : store writer inst out = (.error e, out')) :
    (∃ err, (writer.encode inst).output.1 = .error err ∧ e = .write err ∧ out' = out) ∨
      ∃ text fault, (writer.encode inst).output = (.ok (), text) ∧ e = .output fault ∧
        out.commit inst.name writer.extension text = (.error fault, out') := by
  unfold store at h
  split at h
  next err text hwrite =>
    obtain ⟨he, rfl⟩ := Prod.mk.inj h
    exact .inl ⟨err, by rw [hwrite], (Except.error.inj he).symm, rfl⟩
  next text hwrite =>
    obtain ⟨he, rfl⟩ := Prod.mk.inj h
    obtain ⟨fault, hfault, rfl⟩ := mapError_eq_error.1 he
    exact .inr ⟨text, fault, hwrite, rfl, Prod.ext hfault rfl⟩

/-- A processed instance is committed with its complete encoding. -/
lemma process_ok {aux : ℕ} {path : Option String}
    (h : c.process inst out = (.ok (aux, path), out')) :
    ∃ text, Encodes c.settings c.writer inst text ∧
      (out.target = .stream → out' = out.took (bytesOf text) (bytesOf text)) := by
  unfold process at h
  split at h
  · cases h
  next inst' aux' htransform =>
    obtain ⟨hmap, rfl⟩ := Prod.mk.inj h
    obtain ⟨path', hpath, -⟩ := map_eq_ok.1 hmap
    obtain ⟨text, hwrite, hcommit⟩ := store_ok (Prod.ext (mapError_eq_ok.1 hpath) rfl)
    exact ⟨text, ⟨inst', aux', htransform, hwrite⟩, fun hstream => commit_stream_ok hstream hcommit⟩

/-- An instance that is not committed leaves nothing behind in a stream, unless the stream has
failed on its complete encoding. -/
lemma process_error (h : c.process inst out = (.error (stage, e), out')) :
    stage = e.stage ∧ Rejects c.settings c.writer inst e ∧
      (out.target = .stream → (∀ fault, e ≠ .output fault) ∧ out' = out ∨
        ∃ text fault part, e = .output fault ∧ Encodes c.settings c.writer inst text ∧
          out.StreamFails (bytesOf text) fault part ∧ out' = out.took (bytesOf text) part) := by
  unfold process at h
  split at h
  next stage' e' htransform =>
    cases h
    refine ⟨transform_error htransform, .transform htransform, fun _ => .inl ⟨?_, rfl⟩⟩
    exact ne_output_of_transform htransform
  next inst' aux htransform =>
    obtain ⟨hmap, rfl⟩ := Prod.mk.inj h
    obtain ⟨e', he', heq⟩ := mapError_eq_error.1 (map_eq_error.1 hmap)
    obtain ⟨rfl, rfl⟩ := Prod.mk.inj heq
    rcases store_error (Prod.ext he' rfl) with ⟨err, hwrite, rfl, hout⟩ |
      ⟨text, fault, hwrite, rfl, hcommit⟩
    · exact ⟨rfl, .write htransform hwrite, fun _ => .inl ⟨nofun, hout⟩⟩
    · refine ⟨rfl, .output ⟨inst', aux, htransform, hwrite⟩, fun hstream => .inr ?_⟩
      obtain ⟨part, hfails, hout⟩ := commit_stream_error hstream hcommit
      exact ⟨text, fault, part, rfl, ⟨inst', aux, htransform, hwrite⟩, hfails, hout⟩

end Converter

/-! ## Whole runs -/

/-- What a run leaves in an outlet that has taken all that the run has committed: nothing more, or
the part of one more text that the stream has failed on.  This text is the complete encoding of the
instance that the reader has decoded last, and the run fails for what the stream has failed for. -/
inductive Run.Leaves (settings : Settings) (writer : OutputFormat)
    (next : Except ReadError (Option Instance)) (out : Outlet) :
    Except RunError RunSummary → Outlet → Prop
  | nothing {outcome : Except RunError RunSummary}
      (h : ∀ e fault, outcome = .error e → e.source ≠ .output fault) :
      Leaves settings writer next out outcome out
  | part {e : RunError} {fault : SystemFault} {inst : Instance} {text : String}
      {part : List UInt8} (hsource : e.source = .output fault) (hnext : next = .ok (some inst))
      (htext : Converter.Encodes settings writer inst text)
      (hfails : out.StreamFails (bytesOf text) fault part) :
      Leaves settings writer next out (.error e) (out.took (bytesOf text) part)

/-- The records of a run of a converter agree, given the instances that were committed, the reader
after them and what was left of the stream after them.  The run goes on with one that has committed
`before` instances. -/
structure Run.Accounted (c : Converter) (before : ℕ) (input : InputStream) (out : Outlet)
    (insts : List Instance) (after : Reader) (rest : InputStream) (run : Converter.Run) : Prop where
  /-- The committed instances are the first ones of the stream. -/
  decoded : c.reader.Decodes input insts after rest
  /-- A stream has received the complete encodings of the committed instances, in order, and
  nothing else but for the part of the next one that it may have failed on. -/
  committed : ∃ texts, List.Forall₂ (Converter.Encodes c.settings c.writer) insts texts ∧
    (out.target = .stream → Run.Leaves c.settings c.writer (after.next rest).1
      (out.tookAll (texts.map bytesOf)) run.outcome run.out)
  /-- No more instances are committed than were asked for. -/
  limit : ∀ n ∈ c.settings.count, before + insts.length ≤ n
  /-- A run that succeeds has got to the end of the stream, or it has stopped at the number of
  instances that was asked for. -/
  ok : ∀ summary, run.outcome = .ok summary → summary.written = before + insts.length ∧
    (run.converter.stage = .exhausted ↔ summary.exhausted = true) ∧
    (summary.exhausted = false → run.converter.stage = .idle ∧
      ∃ n, c.settings.count = some n ∧ summary.written = n)
  /-- A run that fails blames the stage that the reason belongs to, and fails on the instance after
  the committed ones. -/
  error : ∀ e, run.outcome = .error e → run.converter.stage = .failed ∧
    e.stage = e.source.stage ∧ before + insts.length = e.index - 1 ∧ 1 ≤ e.index ∧
    ((∃ err, (after.next rest).1 = .error err ∧ e.source = .read err) ∨
      ∃ inst, (after.next rest).1 = .ok (some inst) ∧
        Converter.Rejects c.settings c.writer inst e.source)
  /-- Only the place in the stream and the stage of the converter change. -/
  converter : run.converter.reader.format = c.reader.format ∧ run.converter.writer = c.writer ∧
    run.converter.settings = c.settings

namespace Run.Accounted

variable {c : Converter} {before : ℕ} {input rest : InputStream} {out : Outlet}
  {insts : List Instance} {after : Reader} {run : Converter.Run}

/-- A run whose first round commits an instance is accounted for if what comes after that round
is. -/
lemma cons {inst : Instance} {r₁ : Reader} {input₁ : InputStream} {out₁ : Outlet} {aux : ℕ}
    {path : Option String} (hnext : c.reader.next input = (.ok (some inst), r₁, input₁))
    (hprocess : c.process inst out = (.ok (aux, path), out₁))
    (h : Accounted { c with reader := r₁ } (before + 1) input₁ out₁ insts after rest run) :
    Accounted c before input out (inst :: insts) after rest run := by
  have hlength : before + (inst :: insts).length = before + 1 + insts.length := by
    rw [List.length_cons]
    omega
  obtain ⟨text, htext, hout₁⟩ := Converter.process_ok hprocess
  obtain ⟨texts, htexts, hout⟩ := h.committed
  constructor
  case decoded => exact .cons hnext h.decoded
  case committed =>
    refine ⟨text :: texts, .cons htext htexts, fun hstream => ?_⟩
    obtain rfl := hout₁ hstream
    rw [List.map_cons, Outlet.tookAll_cons]
    exact hout hstream
  case limit => exact hlength ▸ h.limit
  case ok => exact hlength ▸ h.ok
  case error => exact hlength ▸ h.error
  case converter =>
    obtain ⟨hformat, hwriter, hsettings⟩ := h.converter
    exact ⟨hformat.trans (Reader.format_of_next hnext), hwriter, hsettings⟩

/-- A run that ends well where it stands is accounted for. -/
lemma of_ok {c' : Converter} {summary : RunSummary} (hformat : c'.reader.format = c.reader.format)
    (hsame : c'.writer = c.writer ∧ c'.settings = c.settings) (hwritten : summary.written = before)
    (hlimit : ∀ n ∈ c.settings.count, before ≤ n)
    (hstage : c'.stage = .exhausted ∧ summary.exhausted = true ∨
      c'.stage = .idle ∧ summary.exhausted = false ∧
        ∃ n, c.settings.count = some n ∧ summary.written = n) :
    Accounted c before input out [] c.reader input ⟨.ok summary, c', rest, out⟩ := by
  refine ⟨.nil _ _, ⟨[], .nil, fun _ => ?_⟩, hlimit, ?_, ?_, hformat, hsame⟩
  · rw [List.map_nil, Outlet.tookAll_nil]
    refine .nothing ?_
    rintro e fault ⟨⟩
  · rintro _ ⟨⟩
    rcases hstage with ⟨hstage, hexhausted⟩ | ⟨hstage, hexhausted, hcount⟩
    · simp [hwritten, hstage, hexhausted]
    · exact ⟨hwritten, by simp [hstage, hexhausted], fun _ => ⟨hstage, hcount⟩⟩
  · rintro _ ⟨⟩

/-- A run that fails on the instance where it stands is accounted for. -/
lemma of_error {c' : Converter} {e : RunError} (hformat : c'.reader.format = c.reader.format)
    (hsame : c'.writer = c.writer ∧ c'.settings = c.settings) (hstage : c'.stage = .failed)
    (hlimit : ∀ n ∈ c.settings.count, before ≤ n) (hindex : e.index = before + 1)
    (hblame : e.stage = e.source.stage)
    (hcause : (∃ err, (c.reader.next input).1 = .error err ∧ e.source = .read err) ∨
      ∃ inst, (c.reader.next input).1 = .ok (some inst) ∧
        Converter.Rejects c.settings c.writer inst e.source)
    {out' : Outlet} (hout : out.target = .stream →
      Leaves c.settings c.writer (c.reader.next input).1 out (.error e) out') :
    Accounted c before input out [] c.reader input ⟨.error e, c', rest, out'⟩ := by
  refine ⟨.nil _ _, ⟨[], .nil, fun hstream => ?_⟩, hlimit, ?_, ?_, hformat, hsame⟩
  · rw [List.map_nil, Outlet.tookAll_nil]
    exact hout hstream
  · rintro _ ⟨⟩
  · rintro _ ⟨⟩
    refine ⟨hstage, hblame, ?_, ?_, hcause⟩
    · rw [hindex, List.length_nil]
      rfl
    · omega

end Run.Accounted

namespace Converter

/-- The requested number of instances is not reached while less is written. -/
lemma isReached_iff {settings : Settings} {written : ℕ} :
    isReached settings written = true ↔ ∃ n, settings.count = some n ∧ n.val ≤ written := by
  rw [isReached, Option.any_eq_true]
  simp

/-- A run is accounted for from wherever it goes on before the requested number of instances. -/
lemma runFrom_accounted (source : String) (summary : RunSummary) (c : Converter)
    (input : InputStream) (out : Outlet) (hopen : summary.exhausted = false)
    (hlimit : ∀ n ∈ c.settings.count, summary.written < n.val) :
    ∃ insts after rest, Run.Accounted c summary.written input out insts after rest
      (c.runFrom source summary input out) := by
  -- a run that stops is accounted for by itself, one that goes on by an instance in front of the
  -- rest
  fun_induction runFrom source summary c input out
  case case1 summary c input out index e r₁ input₁ hnext =>
    have hformat := Reader.format_of_next hnext
    have hcause : (c.reader.next input).1 = .error e := by rw [hnext]
    refine ⟨[], c.reader, input, ?_⟩
    apply Run.Accounted.of_error
    case hformat => exact hformat
    case hsame => exact ⟨rfl, rfl⟩
    case hstage | hindex | hblame => rfl
    case hlimit => exact fun n hn => Nat.le_of_lt (hlimit n hn)
    case hcause => exact .inl ⟨e, hcause, rfl⟩
    case hout =>
      refine fun _ => .nothing ?_
      rintro _ fault ⟨⟩ ⟨⟩
  case case2 summary c input out r₁ input₁ hnext =>
    have hformat := Reader.format_of_next hnext
    exact ⟨[], c.reader, input, .of_ok hformat ⟨rfl, rfl⟩ rfl
      (fun n hn => Nat.le_of_lt (hlimit n hn)) (.inl ⟨rfl, rfl⟩)⟩
  case case3 summary c input out index inst r₁ input₁ hnext label c₁ stage e out₁ hprocess =>
    have hformat := Reader.format_of_next hnext
    obtain ⟨hblame, hrejects, hout⟩ := process_error hprocess
    have hdecoded : (c.reader.next input).1 = .ok (some inst) := by rw [hnext]
    refine ⟨[], c.reader, input, ?_⟩
    apply Run.Accounted.of_error
    case hformat => exact hformat
    case hsame => exact ⟨rfl, rfl⟩
    case hstage | hindex => rfl
    case hblame => exact hblame
    case hlimit => exact fun n hn => Nat.le_of_lt (hlimit n hn)
    case hcause => exact .inr ⟨inst, hdecoded, hrejects⟩
    case hout =>
      intro hstream
      rcases hout hstream with ⟨hne, rfl⟩ | ⟨text, fault, part, rfl, htext, hfails, rfl⟩
      · refine .nothing ?_
        rintro _ fault ⟨⟩
        exact hne fault
      · exact .part rfl hdecoded htext hfails
  case case4 summary c input out inst r₁ input₁ hnext c₁ aux path out₁ hprocess summary₁ hend =>
    exact ⟨[inst], r₁, input₁, .cons hnext hprocess
      (.of_ok rfl ⟨rfl, rfl⟩ rfl (fun n hn => hlimit n hn) (.inl ⟨rfl, rfl⟩))⟩
  case case5 summary c input out inst r₁ input₁ hnext c₁ aux path out₁ hprocess summary₁ hend
      hreached =>
    obtain ⟨n, hn, hle⟩ := isReached_iff.1 hreached
    -- the number was not reached before this instance, so it is met exactly
    have hwritten : summary.written + 1 = n := Nat.le_antisymm (hlimit n hn) hle
    exact ⟨[inst], r₁, input₁, .cons hnext hprocess
      (.of_ok rfl ⟨rfl, rfl⟩ rfl (fun n hn => hlimit n hn)
        (.inr ⟨rfl, hopen, n, hn, hwritten⟩))⟩
  case case6 summary c input out inst r₁ input₁ hnext c₁ aux path out₁ hprocess summary₁ hend
      hreached ih =>
    have hbelow : ∀ n ∈ c.settings.count, summary.written + 1 < n.val := by
      intro n hn
      by_contra hge
      exact hreached (isReached_iff.2 ⟨n, hn, Nat.le_of_not_lt hge⟩)
    obtain ⟨insts, after, rest, h⟩ := ih hopen hbelow
    exact ⟨inst :: insts, after, rest, .cons hnext hprocess h⟩

end Converter

/-! ## Sequences of runs -/

/-- What a run of a converter is started on: a stream with its name, and an outlet. -/
structure Order where
  input : InputStream
  source : String
  out : Outlet

namespace Converter

/-- The converter after a run for each order. -/
def after (c : Converter) (orders : List Order) : Converter :=
  orders.foldl (fun c o => (c.run o.input o.source o.out).converter) c

/-- A run is accounted for. -/
lemma run_accounted (c : Converter) (o : Order) :
    ∃ insts after rest, Run.Accounted c 0 o.input o.out insts after rest
      (c.run o.input o.source o.out) :=
  runFrom_accounted o.source {} c o.input o.out rfl fun n _ => n.property

/-- Runs leave a converter with the same formats and the same settings. -/
lemma after_keeps (c : Converter) (orders : List Order) :
    (c.after orders).reader.format = c.reader.format ∧ (c.after orders).writer = c.writer ∧
      (c.after orders).settings = c.settings := by
  induction orders generalizing c with
  | nil => exact ⟨rfl, rfl, rfl⟩
  | cons o orders ih =>
    obtain ⟨insts, r, rest, h⟩ := c.run_accounted o
    obtain ⟨hformat, hwriter, hsettings⟩ := h.converter
    obtain ⟨hformat', hwriter', hsettings'⟩ := ih (c.run o.input o.source o.out).converter
    exact ⟨hformat'.trans hformat, hwriter'.trans hwriter, hsettings'.trans hsettings⟩

/-- **The records of a run agree**, whatever the converter, whatever runs it did before, and
whatever the stream does: the outcome, the stage of the converter and the number of committed
instances belong together, and a stream has received the complete encodings of the committed
instances and nothing else, but for the part of the next encoding that a failing stream has
taken. -/
theorem run_after (c : Converter) (earlier : List Order) (o : Order) :
    ((c.after earlier).reader.format = c.reader.format ∧ (c.after earlier).writer = c.writer ∧
      (c.after earlier).settings = c.settings) ∧
    ∃ insts after rest, Run.Accounted (c.after earlier) 0 o.input o.out insts after rest
      ((c.after earlier).run o.input o.source o.out) :=
  ⟨c.after_keeps earlier, (c.after earlier).run_accounted o⟩

/-- A stream without room for all of its second text has taken the beginning of it, and nobody takes
that back. -/
theorem run_leaves_part :
    let c : Converter := { reader := ⟨.knapsack, {}⟩, writer := .exchange true, settings := {} }
    let input := InputStream.ofBytes
      (bytesOf "a\nn 0\nc 0\n-----\n\nb\nn 0\nc 1\n-----\n") false 64
    let run := c.run input "<stdin>" { device := .ofCapacity 75 }
    run.outcome = .error ⟨"b", 2, .writing, .output (.device "failed to write whole buffer")⟩ ∧
      run.converter.stage = .failed ∧
      run.out.received = bytesOf
        "c 0 variables, 1 constraints, written by ilpconv\nn a\no max\nk <= 0\nc 0 varia" := by
  decide +kernel

end Converter

end LinearInterchange
