import LinearInterchange.Proofs.ConverterRuns
import LinearInterchange.Proofs.Resumption

/-!
# The number of an instance that failed

A run that fails tells the number of the instance that failed.  It counts the instances of this run.
A converter can be run again on what earlier runs have left of a stream, and then the number in the
stream is higher, by the number of instances that the earlier runs have decoded
(`index_of_failure`).

All runs of a converter on one stream make one sequence of calls to its reader, so what happened
before a failure is said in terms of these calls.  `Run.Calls` says it of one run; the proof follows
the rounds of the run.
-/

namespace LinearInterchange

namespace Reader

variable {r r₁ : Reader} {input input₁ : InputStream}
  {outcome₁ : Except ReadError (Option Instance)}

/-! ## Decoded instances -/

/-- The instances that a number of calls decode. -/
def decoded (r : Reader) (input : InputStream) : ℕ → List Instance
  | 0 => []
  | n + 1 => r.decoded input n ++ (r.outcome input n).toOption.join.toList

/-- More calls decode more instances. -/
lemma decoded_add (r : Reader) (input : InputStream) (k n : ℕ) :
    r.decoded input (k + n) =
      r.decoded input k ++ (r.after input k).1.decoded (r.after input k).2 n := by
  induction n with
  | zero => exact (List.append_nil _).symm
  | succ n ih => rw [Nat.add_succ, decoded, ih, outcome_add, List.append_assoc, decoded]

/-- The calls after the first one are calls of the reader and on the stream that it left. -/
lemma after_succ (h : r.next input = (outcome₁, r₁, input₁)) (n : ℕ) :
    r.after input (n + 1) = r₁.after input₁ n := by
  rw [Nat.add_comm, after_add, after, after, h]

lemma outcome_succ (h : r.next input = (outcome₁, r₁, input₁)) (n : ℕ) :
    r.outcome input (n + 1) = r₁.outcome input₁ n := by
  rw [outcome, outcome, after_succ h]

/-- The first call decodes the first instance. -/
lemma decoded_succ (h : r.next input = (outcome₁, r₁, input₁)) (n : ℕ) :
    r.decoded input (n + 1) = outcome₁.toOption.join.toList ++ r₁.decoded input₁ n := by
  have hfirst : r.decoded input 1 = outcome₁.toOption.join.toList := by
    rw [decoded, decoded, List.nil_append, outcome, after, h]
  rw [Nat.add_comm, decoded_add, hfirst, after_succ h, after]

end Reader

/-! ## One run -/

/-- The outcome of a call to the reader makes a run fail for a reason: nothing is decoded, or what
is decoded is not committed. -/
inductive Converter.Fails (settings : Settings) (writer : OutputFormat) :
    Except ReadError (Option Instance) → StageError → Prop
  | read (e : ReadError) : Fails settings writer (.error e) (.read e)
  | rejected {inst : Instance} {e : StageError} (h : Converter.Rejects settings writer inst e) :
      Fails settings writer (.ok (some inst)) e

/-- An instance that was decoded is not rejected for what comes of reading. -/
lemma Converter.Rejects.ne_read {settings : Settings} {writer : OutputFormat} {inst : Instance}
    {e : StageError} (h : Converter.Rejects settings writer inst e) (err : ReadError) :
    e ≠ .read err := by
  rintro rfl
  cases h with
  | transform htransform =>
    rcases bind_eq_error.1 htransform with hscale | ⟨inst', -, hsplit⟩
    · unfold Converter.scale at hscale
      split at hscale
      · cases hscale
      · split at hscale <;> cases hscale
    · unfold Converter.split at hsplit
      split at hsplit
      · cases hsplit
      · split at hsplit <;> cases hsplit

/-- The number of instances that were decoded by the call that a run failed for. -/
def StageError.decoded : StageError → ℕ
  | .read _ => 0
  | _ => 1

/-- The reason tells whether the call that a run failed for has decoded an instance. -/
lemma Converter.Fails.decoded_eq {settings : Settings} {writer : OutputFormat}
    {outcome : Except ReadError (Option Instance)} {e : StageError}
    (h : Converter.Fails settings writer outcome e) :
    e.decoded = outcome.toOption.join.toList.length := by
  cases h with
  | read err => rfl
  | rejected hrejects =>
    cases e with
    | read err => exact absurd rfl (hrejects.ne_read err)
    | precision _ | split _ | write _ | output _ => rfl

/-- A run that goes on with one that has committed `before` instances makes a number of calls to the
reader, one after another, and counts the instances that these decode. -/
structure Run.Calls (c : Converter) (before : ℕ) (input : InputStream) (calls : ℕ)
    (run : Converter.Run) : Prop where
  /-- The run leaves the reader and the stream as the calls do. -/
  left : (run.converter.reader, run.input) = c.reader.after input calls
  /-- A run that succeeds has written the decoded instances. -/
  ok : ∀ s, run.outcome = .ok s → s.written = before + (c.reader.decoded input calls).length
  /-- A run that fails does so for what comes of its last call, and tells the number of the instance
  that this call was to decode. -/
  error : ∀ e, run.outcome = .error e → ∃ n, calls = n + 1 ∧
    Converter.Fails c.settings c.writer (c.reader.outcome input n) e.source ∧
    e.index = before + (c.reader.decoded input n).length + 1

namespace Run.Calls

variable {c : Converter} {before calls : ℕ} {input input₁ : InputStream} {r₁ : Reader}
  {inst : Instance} {run : Converter.Run}

/-- A run goes on from the first instance to those after it. -/
lemma cons (hnext : c.reader.next input = (.ok (some inst), r₁, input₁))
    (h : Calls { c with reader := r₁ } (before + 1) input₁ calls run) :
    Calls c before input (calls + 1) run := by
  have hlength : ∀ n, before + (c.reader.decoded input (n + 1)).length =
      before + 1 + (r₁.decoded input₁ n).length := by
    intro n
    rw [Reader.decoded_succ hnext, List.length_append]
    exact (Nat.add_assoc before 1 _).symm
  constructor
  case left => exact h.left.trans (Reader.after_succ hnext calls).symm
  case ok => exact fun s hs => (h.ok s hs).trans (hlength calls).symm
  case error =>
    intro e he
    obtain ⟨n, rfl, hfails, hindex⟩ := h.error e he
    refine ⟨n + 1, rfl, ?_, ?_⟩
    · rw [Reader.outcome_succ hnext]
      exact hfails
    · rw [hlength]
      exact hindex

/-- A run that succeeds with its first call has written what this call decodes. -/
lemma of_ok {outcome : Except ReadError (Option Instance)} {c' : Converter} {s : RunSummary}
    {out : Outlet} (hnext : c.reader.next input = (outcome, r₁, input₁)) (hreader : c'.reader = r₁)
    (hwritten : s.written = before + outcome.toOption.join.toList.length) :
    Calls c before input 1 ⟨.ok s, c', input₁, out⟩ where
  left := by
    rw [Reader.after_succ hnext]
    exact congrArg (·, input₁) hreader
  ok s' hs' := by
    obtain rfl := Except.ok.inj hs'
    rw [Reader.decoded_succ hnext, hwritten, Reader.decoded, List.append_nil]
  error e he := by cases he

/-- A run that fails with its first call tells the number of the instance that was to come next. -/
lemma of_error {outcome : Except ReadError (Option Instance)} {c' : Converter} {e : RunError}
    {out : Outlet} (hnext : c.reader.next input = (outcome, r₁, input₁)) (hreader : c'.reader = r₁)
    (hfails : Converter.Fails c.settings c.writer outcome e.source)
    (hindex : e.index = before + 1) :
    Calls c before input 1 ⟨.error e, c', input₁, out⟩ where
  left := by
    rw [Reader.after_succ hnext]
    exact congrArg (·, input₁) hreader
  ok s hs := by cases hs
  error e' he' := by
    obtain rfl := Except.error.inj he'
    refine ⟨0, rfl, ?_, hindex⟩
    rw [Reader.outcome, Reader.after, hnext]
    exact hfails

end Run.Calls

namespace Converter

/-- A run makes calls to the reader from wherever it goes on. -/
lemma runFrom_calls (source : String) (s : RunSummary) (c : Converter) (input : InputStream)
    (out : Outlet) :
    ∃ calls, Run.Calls c s.written input calls (c.runFrom source s input out) := by
  fun_induction runFrom source s c input out
  case case1 s c input out index e r₁ input₁ hnext =>
    exact ⟨1, .of_error hnext rfl (.read e) rfl⟩
  case case2 s c input out r₁ input₁ hnext => exact ⟨1, .of_ok hnext rfl rfl⟩
  case case3 s c input out index inst r₁ input₁ hnext label c₁ stage e out₁ hprocess =>
    obtain ⟨-, hrejects, -⟩ := process_error hprocess
    exact ⟨1, .of_error hnext rfl (.rejected hrejects) rfl⟩
  case case4 s c input out inst r₁ input₁ hnext c₁ aux path out₁ hprocess s₁ hend =>
    exact ⟨1, .of_ok hnext rfl rfl⟩
  case case5 s c input out inst r₁ input₁ hnext c₁ aux path out₁ hprocess s₁ hend hreached =>
    exact ⟨1, .of_ok hnext rfl rfl⟩
  case case6 s c input out inst r₁ input₁ hnext c₁ aux path out₁ hprocess s₁ hend hreached ih =>
    obtain ⟨calls, h⟩ := ih
    exact ⟨calls + 1, .cons hnext h⟩

lemma run_calls (c : Converter) (input : InputStream) (source : String) (out : Outlet) :
    ∃ calls, Run.Calls c 0 input calls (c.run input source out) :=
  runFrom_calls source {} c input out

/-! ## Runs on one stream -/

/-- What a run on a stream is told: the name of the stream, and where to commit to. -/
structure Task where
  source : String
  out : Outlet

/-- The converter and the stream after some runs, each on what the one before it has left. -/
def afterRuns (c : Converter) (input : InputStream) : List Task → Converter × InputStream
  | [] => (c, input)
  | t :: ts =>
    (c.run input t.source t.out).converter.afterRuns (c.run input t.source t.out).input ts

/-- The outcomes of some runs, each on what the one before it has left. -/
def outcomes (c : Converter) (input : InputStream) : List Task → List (Except RunError RunSummary)
  | [] => []
  | t :: ts => (c.run input t.source t.out).outcome ::
      (c.run input t.source t.out).converter.outcomes (c.run input t.source t.out).input ts

/-- The number of instances that a run has decoded, as its outcome tells it: those that were
written, those before the one that failed, and that one too if it was decoded. -/
def decodedIn : Except RunError RunSummary → ℕ
  | .ok s => s.written
  | .error e => e.index - 1 + e.source.decoded

/-- The outcome of a run tells how many instances its calls have decoded. -/
lemma decodedIn_eq {c : Converter} {input : InputStream} {calls : ℕ} {run : Run}
    (h : Run.Calls c 0 input calls run) :
    decodedIn run.outcome = (c.reader.decoded input calls).length := by
  cases houtcome : run.outcome with
  | ok s => exact (h.ok s houtcome).trans (Nat.zero_add _)
  | error e =>
    obtain ⟨n, rfl, hfails, hindex⟩ := h.error e houtcome
    rw [Nat.zero_add] at hindex
    rw [decodedIn, Reader.decoded, List.length_append, ← hfails.decoded_eq, hindex,
      Nat.add_sub_cancel]

/-- Some runs on one stream make calls to the reader, one after another. -/
lemma afterRuns_calls (c : Converter) (input : InputStream) (tasks : List Task) :
    ∃ k, ((c.afterRuns input tasks).1.reader, (c.afterRuns input tasks).2) =
        c.reader.after input k ∧
      (c.reader.decoded input k).length = ((c.outcomes input tasks).map decodedIn).sum ∧
      (c.afterRuns input tasks).1.writer = c.writer ∧
      (c.afterRuns input tasks).1.settings = c.settings := by
  induction tasks generalizing c input with
  | nil => exact ⟨0, rfl, rfl, rfl, rfl⟩
  | cons t ts ih =>
    obtain ⟨j, hj⟩ := c.run_calls input t.source t.out
    obtain ⟨insts, r, rest, h⟩ := c.run_accounted ⟨input, t.source, t.out⟩
    obtain ⟨-, hwriter, hsettings⟩ := h.converter
    obtain ⟨k, hleft, hlength, hwriter', hsettings'⟩ :=
      ih (c.run input t.source t.out).converter (c.run input t.source t.out).input
    have hrun : ((c.run input t.source t.out).converter.reader,
        (c.run input t.source t.out).input) = c.reader.after input j := hj.left
    refine ⟨j + k, ?_, ?_, hwriter'.trans hwriter, hsettings'.trans hsettings⟩
    · rw [Reader.after_add, ← hrun]
      exact hleft
    · rw [Reader.decoded_add, ← hrun, List.length_append, hlength, ← decodedIn_eq hj]
      rfl

/-- **The number of an instance that failed** is its number in the run.  When a run fails after
earlier runs on the same stream, its last call to the reader is the one that it fails for.  The
instances that were decoded before that call are those before it in this run, which its error
counts, and those that the earlier runs have decoded; so the error tells the number in the stream
just if the earlier runs have decoded nothing. -/
theorem index_of_failure (c : Converter) (input : InputStream) (earlier : List Task) (task : Task)
    {e : RunError}
    (hfails : ((c.afterRuns input earlier).1.run (c.afterRuns input earlier).2
      task.source task.out).outcome = .error e) :
    ∃ k n, k ≤ n ∧
      ((c.afterRuns input earlier).1.reader, (c.afterRuns input earlier).2) =
        c.reader.after input k ∧
      (c.reader.decoded input k).length = ((c.outcomes input earlier).map decodedIn).sum ∧
      Fails c.settings c.writer (c.reader.outcome input n) e.source ∧
      (c.reader.decoded input n).length + 1 = (c.reader.decoded input k).length + e.index ∧
      (e.index = (c.reader.decoded input n).length + 1 ↔ c.reader.decoded input k = []) := by
  obtain ⟨k, hleft, hlength, hwriter, hsettings⟩ := c.afterRuns_calls input earlier
  obtain ⟨calls, hcalls⟩ := (c.afterRuns input earlier).1.run_calls
    (c.afterRuns input earlier).2 task.source task.out
  obtain ⟨n, rfl, hcause, hindex⟩ := hcalls.error e hfails
  obtain ⟨hreader, hinput⟩ := Prod.mk.inj hleft
  rw [hwriter, hsettings, hreader, hinput, ← Reader.outcome_add] at hcause
  have hdecoded : (c.reader.decoded input (k + n)).length + 1 =
      (c.reader.decoded input k).length + e.index := by
    rw [hreader, hinput] at hindex
    rw [Reader.decoded_add, List.length_append, hindex]
    omega
  refine ⟨k, k + n, Nat.le_add_right k n, hleft, hlength, hcause, hdecoded, ?_⟩
  rw [← List.length_eq_zero_iff]
  omega

/-- Two instances of a stream are asked for at a time, and the stream breaks off in its fourth
entry.  The second run fails on its second instance, which is the fourth one of the stream. -/
theorem index_of_failure_fourth :
    let c : Converter :=
      { reader := ⟨.knapsack, {}⟩, writer := .exchange true,
        settings := { count := some ⟨2, Nat.two_pos⟩ } }
    let input := InputStream.ofBytes
      (bytesOf ("a\nn 0\nc 0\n-----\n\nb\nn 0\nc 0\n-----\n\n"
        ++ "c\nn 0\nc 0\n-----\n\nd\n")) false 64
    let task : Task := ⟨"<stdin>", {}⟩
    let missing : RunError := ⟨"<stdin>", 2, .reading,
      .read (.refused ⟨17, 53⟩ (.malformed "expected `n <items>` line"))⟩
    ((c.afterRuns input [task]).1.run (c.afterRuns input [task]).2
        task.source task.out).outcome = .error missing ∧
      ∃ n, Fails c.settings c.writer (c.reader.outcome input n) missing.source ∧
        (c.reader.decoded input n).length + 1 = 4 ∧
        missing.index ≠ (c.reader.decoded input n).length + 1 := by
  intro c input task missing
  have hfails : ((c.afterRuns input [task]).1.run (c.afterRuns input [task]).2
      task.source task.out).outcome = .error missing := by decide +kernel
  have hearlier : ((c.outcomes input [task]).map decodedIn).sum = 2 := by decide +kernel
  obtain ⟨k, n, -, -, hlength, hcause, hdecoded, hright⟩ :=
    index_of_failure c input [task] task hfails
  rw [hearlier] at hlength
  have hfourth : (c.reader.decoded input n).length + 1 = 4 :=
    hdecoded.trans (congrArg (· + missing.index) hlength)
  refine ⟨hfails, n, hcause, hfourth, fun hindex => ?_⟩
  rw [hright.1 hindex] at hlength
  cases hlength

/-- One instance of a stream is asked for, and then the next one, in which the stream breaks off.
The second run fails on the second instance of the stream and tells the number 1. -/
theorem index_ne_of_resumed :
    let c : Converter :=
      { reader := ⟨.knapsack, {}⟩, writer := .exchange true,
        settings := { count := some ⟨1, Nat.one_pos⟩ } }
    let input := InputStream.ofBytes (bytesOf "a\nn 0\nc 0\n-----\n\nb\n") false 64
    let paused := c.run input "<stdin>" {}
    let broken := paused.converter.run paused.input "<stdin>" {}
    let missing : RunError := ⟨"<stdin>", 1, .reading,
      .read (.refused ⟨7, 19⟩ (.malformed "expected `n <items>` line"))⟩
    paused.outcome = .ok { written := 1 } ∧ broken.outcome = .error missing ∧
      (c.reader.outcome input 1).isOk = false ∧
      missing.index ≠ (c.reader.decoded input 1).length + 1 := by
  decide +kernel

end Converter

end LinearInterchange
