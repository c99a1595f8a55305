import LinearInterchange.Proofs.ConverterRuns
import LinearInterchange.Proofs.KnapsackInstances

/-!
# Counted runs compose

A converter that is asked for a number of instances stops there and can be run again on the same
stream.  Over a stream of knapsacks, running it until nothing is left does what one run without a
number does: the outlet and the stream end up the same, and the summaries add up.

The proof has two halves.  A counted run that stops is a beginning of the run without a number
(`uncounted_runFrom`), and a run that goes on from a summary only adds to it (`runFrom_add`),
because knapsacks have names and so nothing that a run reports depends on how many came before.
-/

namespace LinearInterchange

/-! ## Adding up summaries -/

/-- The summary of a run after another one. -/
def RunSummary.add (s t : RunSummary) : RunSummary where
  written := s.written + t.written
  aux := s.aux + t.aux
  outputs := s.outputs ++ t.outputs
  exhausted := t.exhausted

/-- The summary of runs one after another. -/
def RunSummary.total (ss : List RunSummary) : RunSummary :=
  ss.foldr RunSummary.add {}

/-- The summary after one more instance. -/
def RunSummary.commit (s : RunSummary) (aux : ℕ) (path : Option String) : RunSummary :=
  { s with
    written := s.written + 1
    aux := s.aux + aux
    outputs := s.outputs ++ path.toList }

/-- The outcome of a run after another one: instances are counted from the first run on. -/
def RunSummary.shift (s : RunSummary) : Except RunError RunSummary → Except RunError RunSummary
  | .ok t => .ok (s.add t)
  | .error e => .error { e with index := s.written + e.index }

namespace RunSummary

/-- Runs can be grouped. -/
lemma shift_shift (s t : RunSummary) (outcome : Except RunError RunSummary) :
    s.shift (t.shift outcome) = (s.add t).shift outcome := by
  cases outcome with
  | ok u => simp [shift, add, Nat.add_assoc]
  | error e => simp [shift, add, Nat.add_assoc]

/-- Another instance is added to the last run. -/
lemma add_commit (s t : RunSummary) (aux : ℕ) (path : Option String) :
    (s.add t).commit aux path = s.add (t.commit aux path) := by
  simp [add, commit, Nat.add_assoc]

/-- Nothing comes before the first run. -/
lemma shift_nothing (outcome : Except RunError RunSummary) :
    ({} : RunSummary).shift outcome = outcome := by
  cases outcome with
  | ok u => simp [shift, add]
  | error e => simp [shift]

/-- The instances written by runs one after another add up. -/
lemma written_total (ss : List RunSummary) : (total ss).written = (ss.map (·.written)).sum := by
  induction ss with
  | nil => rfl
  | cons s ss ih =>
    rw [List.map_cons, List.sum_cons, ← ih]
    rfl

/-- The auxiliary variables of runs one after another add up. -/
lemma aux_total (ss : List RunSummary) : (total ss).aux = (ss.map (·.aux)).sum := by
  induction ss with
  | nil => rfl
  | cons s ss ih =>
    rw [List.map_cons, List.sum_cons, ← ih]
    rfl

/-- The files written by runs one after another add up. -/
lemma outputs_total (ss : List RunSummary) : (total ss).outputs = ss.flatMap (·.outputs) := by
  induction ss with
  | nil => rfl
  | cons s ss ih =>
    rw [List.flatMap_cons, ← ih]
    rfl

end RunSummary

namespace Converter

variable {c : Converter} {source : String} {s : RunSummary} {input input₁ : InputStream}
  {out out₁ : Outlet} {r₁ : Reader} {inst : Instance}

/-! ## The rounds of a run -/

/-- A run fails where reading does. -/
lemma runFrom_of_read_error {e : ReadError}
    (h : c.reader.next input = (.error e, r₁, input₁)) :
    c.runFrom source s input out =
      ⟨.error ⟨source, s.written + 1, .reading, .read e⟩,
        { c with reader := r₁, stage := .failed }, input₁, out⟩ := by
  rw [runFrom]
  split <;> simp_all

/-- A run is over at the end of the stream. -/
lemma runFrom_of_none (h : c.reader.next input = (.ok none, r₁, input₁)) :
    c.runFrom source s input out =
      ⟨.ok { s with exhausted := true }, { c with reader := r₁, stage := .exhausted },
        input₁, out⟩ := by
  rw [runFrom]
  split <;> simp_all

/-- A run fails where processing does. -/
lemma runFrom_of_process_error {stage : Stage} {e : StageError}
    (h : c.reader.next input = (.ok (some inst), r₁, input₁))
    (hprocess : ({ c with reader := r₁ } : Converter).process inst out =
      (.error (stage, e), out₁)) :
    c.runFrom source s input out =
      ⟨.error ⟨c.label source (s.written + 1) inst, s.written + 1, stage, e⟩,
        { c with reader := r₁, stage := .failed }, input₁, out₁⟩ := by
  rw [runFrom]
  split
  · simp_all
  · simp_all
  next hnext =>
    rw [h] at hnext
    cases hnext
    simp only [hprocess]

/-- After an instance was committed a run is over, or it has reached the requested number, or it
goes on. -/
lemma runFrom_of_process_ok {aux : ℕ} {path : Option String}
    (h : c.reader.next input = (.ok (some inst), r₁, input₁))
    (hprocess : ({ c with reader := r₁ } : Converter).process inst out = (.ok (aux, path), out₁)) :
    c.runFrom source s input out =
      if !r₁.format.isMulti || r₁.cursor.atEnd then
        ⟨.ok { s.commit aux path with exhausted := true },
          { c with reader := r₁, stage := .exhausted }, input₁, out₁⟩
      else if isReached c.settings (s.written + 1) then
        ⟨.ok (s.commit aux path), { c with reader := r₁, stage := .idle }, input₁, out₁⟩
      else
        ({ c with reader := r₁ } : Converter).runFrom source (s.commit aux path) input₁ out₁ := by
  rw [runFrom]
  split
  · simp_all
  · simp_all
  next hnext =>
    rw [h] at hnext
    cases hnext
    simp only [hprocess]
    rfl

/-! ## Runs without a number -/

/-- The converter before a run, without a requested number of instances. -/
def uncounted (c : Converter) : Converter :=
  { c with settings := { c.settings with count := none }, stage := .idle }

/-- The summary of a run that has stopped at the requested number of instances. -/
def Run.paused? (run : Run) : Option RunSummary :=
  match run.outcome with
  | .ok s => if s.exhausted then none else some s
  | .error _ => none

/-- Without a requested number there is none to reach. -/
lemma not_isReached_uncounted (c : Converter) (written : ℕ) :
    ¬isReached c.uncounted.settings written = true :=
  Bool.false_ne_true

/-- What can be told from outside of a run. -/
def Run.view (run : Run) : Except RunError RunSummary × InputStream × Outlet :=
  (run.outcome, run.input, run.out)

/-- A run without a number begins as a run with one does, and goes on where that one has stopped. -/
lemma uncounted_runFrom (source : String) (s : RunSummary) (c : Converter) (input : InputStream)
    (out : Outlet) (hopen : s.exhausted = false) :
    match (c.runFrom source s input out).paused? with
    | none =>
      (c.uncounted.runFrom source s input out).view = (c.runFrom source s input out).view
    | some s' =>
      c.uncounted.runFrom source s input out =
        (c.runFrom source s input out).converter.uncounted.runFrom source s'
          (c.runFrom source s input out).input (c.runFrom source s input out).out := by
  -- both runs take the same branches up to the one that stops at the number
  fun_induction runFrom source s c input out
  case case1 s c input out index e r₁ input₁ hnext =>
    have hnext' : c.uncounted.reader.next input = (.error e, r₁, input₁) := hnext
    simp only [Run.paused?]
    rw [runFrom_of_read_error hnext']
    rfl
  case case2 s c input out r₁ input₁ hnext =>
    have hnext' : c.uncounted.reader.next input = (.ok none, r₁, input₁) := hnext
    simp only [Run.paused?]
    rw [runFrom_of_none hnext']
    rfl
  case case3 s c input out index inst r₁ input₁ hnext label c₁ stage e out₁ hprocess =>
    have hnext' : c.uncounted.reader.next input = (.ok (some inst), r₁, input₁) := hnext
    simp only [Run.paused?]
    rw [runFrom_of_process_error hnext' hprocess]
    rfl
  case case4 s c input out inst r₁ input₁ hnext c₁ aux path out₁ hprocess s₁ hend =>
    have hnext' : c.uncounted.reader.next input = (.ok (some inst), r₁, input₁) := hnext
    simp only [Run.paused?]
    rw [runFrom_of_process_ok hnext' hprocess, if_pos hend]
    rfl
  case case5 s c input out inst r₁ input₁ hnext c₁ aux path out₁ hprocess s₁ hend hreached =>
    have hnext' : c.uncounted.reader.next input = (.ok (some inst), r₁, input₁) := hnext
    -- the run with a number pauses here, and the other one makes its recursive call
    have hs₁ : s₁.exhausted = false := hopen
    simp only [Run.paused?, hs₁]
    rw [runFrom_of_process_ok hnext' hprocess, if_neg hend,
      if_neg (not_isReached_uncounted _ _)]
    rfl
  case case6 s c input out inst r₁ input₁ hnext c₁ aux path out₁ hprocess s₁ hend hreached ih =>
    have hnext' : c.uncounted.reader.next input = (.ok (some inst), r₁, input₁) := hnext
    rw [runFrom_of_process_ok hnext' hprocess, if_neg hend,
      if_neg (not_isReached_uncounted _ _)]
    exact ih hopen

/-- A decoded knapsack has a name, so its label does not depend on how many came before. -/
lemma label_of_knapsack (hformat : c.reader.format = .knapsack)
    (h : c.reader.next input = (.ok (some inst), r₁, input₁)) (index index' : ℕ) :
    c.label source index inst = c.label source index' inst := by
  obtain ⟨-, -, hdecode⟩ := Reader.next_ok h
  rw [hformat] at hdecode
  obtain ⟨k, -, hinst⟩ := InputFormat.decode_knapsack_ok hdecode
  rw [label, label, Knapsack.name_of_toInstance hinst]

/-- A run without a number that goes on from a summary adds to it what it would do by itself. -/
lemma runFrom_add (source : String) (t s : RunSummary) (c : Converter) (input : InputStream)
    (out : Outlet)
    (hformat : c.reader.format = .knapsack) (hcount : c.settings.count = none) :
    c.runFrom source (t.add s) input out =
      { c.runFrom source s input out with
        outcome := t.shift (c.runFrom source s input out).outcome } := by
  -- without a number, the branch that stops at one is not taken
  have hnever : ∀ written, ¬isReached c.settings written = true := by
    intro written h
    obtain ⟨n, hn, -⟩ := isReached_iff.1 h
    rw [hcount] at hn
    cases hn
  fun_induction runFrom source s c input out
  case case1 s c input out index e r₁ input₁ hnext =>
    rw [runFrom_of_read_error hnext]
    rfl
  case case2 s c input out r₁ input₁ hnext =>
    rw [runFrom_of_none hnext]
    rfl
  case case3 s c input out index inst r₁ input₁ hnext label c₁ stage e out₁ hprocess =>
    rw [runFrom_of_process_error hnext hprocess,
      label_of_knapsack hformat hnext ((t.add s).written + 1) index]
    rfl
  case case4 s c input out inst r₁ input₁ hnext c₁ aux path out₁ hprocess s₁ hend =>
    rw [runFrom_of_process_ok hnext hprocess, if_pos hend, RunSummary.add_commit]
    rfl
  case case5 hreached => exact absurd hreached (hnever _)
  case case6 s c input out inst r₁ input₁ hnext c₁ aux path out₁ hprocess s₁ hend hreached ih =>
    rw [runFrom_of_process_ok hnext hprocess, if_neg hend, if_neg (hnever _),
      RunSummary.add_commit]
    exact ih ((Reader.format_of_next hnext).trans hformat) hcount hnever

/-! ## Running until nothing is left -/

/-- A run that has stopped at the requested number has read something. -/
lemma length_rest_of_paused (source : String) (s : RunSummary) (c : Converter)
    (input : InputStream) (out : Outlet)
    (h : (c.runFrom source s input out).paused?.isSome = true) :
    (c.runFrom source s input out).input.source.rest.length < input.source.rest.length := by
  fun_induction runFrom source s c input out
  case case1 | case2 | case3 | case4 => cases h
  case case5 s c input out inst r₁ input₁ hnext c₁ aux path out₁ hprocess s₁ hend hreached =>
    exact Reader.length_rest_next hnext (by simp_all)
  case case6 s c input out inst r₁ input₁ hnext c₁ aux path out₁ hprocess s₁ hend hreached ih =>
    exact (ih h).trans (Reader.length_rest_next hnext (by simp_all))

/-- Runs a converter on a stream again and again, until a run has read it to its end or fails. -/
def drain (source : String) (c : Converter) (input : InputStream) (out : Outlet) : List Run :=
  let run := c.run input source out
  if _h : run.paused?.isSome then run :: drain source run.converter run.input run.out else [run]
termination_by input.source.rest.length
decreasing_by exact length_rest_of_paused source {} c input out _h

/-- A run that has stopped has succeeded before the end of the stream. -/
lemma paused?_eq_some_iff {run : Run} :
    run.paused? = some s ↔ run.outcome = .ok s ∧ s.exhausted = false := by
  unfold Run.paused?
  cases run.outcome with
  | error e => simp
  | ok t =>
    by_cases ht : t.exhausted = true
    · simp only [ht, if_true, Except.ok.injEq, reduceCtorEq, false_iff, not_and]
      rintro rfl
      simp [ht]
    · simp only [ht, Bool.false_eq_true, if_false, Option.some.injEq, Except.ok.injEq]
      constructor
      · rintro rfl
        exact ⟨rfl, by simpa using ht⟩
      · exact And.left

/-- What runs with a number do together is what one run without a number does. -/
lemma view_uncounted_run {n : { n : ℕ // 0 < n }} (source : String) (c : Converter)
    (input : InputStream) (out : Outlet) (hformat : c.reader.format = .knapsack)
    (hcount : c.settings.count = some n) :
    ∃ paused summaries last, c.drain source input out = paused ++ [last] ∧
      paused.map (·.outcome) = summaries.map Except.ok ∧
      (∀ s ∈ summaries, s.written = n.val ∧ s.exhausted = false) ∧
      last.paused? = none ∧ (∀ e, last.outcome = .error e → 1 ≤ e.index) ∧
      (c.uncounted.run input source out).view =
        ((RunSummary.total summaries).shift last.outcome, last.input, last.out) := by
  fun_induction drain source c input out
  case case1 c input out run hpaused ih =>
    obtain ⟨s, hs⟩ := Option.isSome_iff_exists.1 hpaused
    obtain ⟨houtcome, hopen⟩ := paused?_eq_some_iff.1 hs
    obtain ⟨insts, after, rest, h⟩ := c.run_accounted ⟨input, source, out⟩
    obtain ⟨hkept, -, hsettings⟩ := h.converter
    have hwritten : s.written = n.val := by
      obtain ⟨-, m, hm, hwritten⟩ := (h.ok s houtcome).2.2 hopen
      rw [hcount] at hm
      rw [hwritten, Option.some.inj hm]
    obtain ⟨paused, summaries, last, hdrain, houtcomes, hall, hlast, hindex, hview⟩ :=
      ih (hkept.trans hformat) (hsettings ▸ hcount)
    -- the run without a number goes on from the summary of this run
    have hmore : c.uncounted.run input source out =
        run.converter.uncounted.runFrom source s run.input run.out := by
      have hbegin := uncounted_runFrom source {} c input out rfl
      rw [show (c.runFrom source {} input out).paused? = some s from hs] at hbegin
      exact hbegin
    have hshift := runFrom_add source s {} run.converter.uncounted run.input run.out
      (hkept.trans hformat) rfl
    have hadd : s.add {} = s := by
      cases s
      cases hopen
      simp [RunSummary.add]
    refine ⟨run :: paused, s :: summaries, last, by rw [hdrain, List.cons_append], ?_, ?_, hlast,
      hindex, ?_⟩
    · rw [List.map_cons, List.map_cons, houtcomes]
      exact congrArg (· :: _) houtcome
    · exact List.forall_mem_cons.2 ⟨⟨hwritten, hopen⟩, hall⟩
    · obtain ⟨hout, hrest⟩ := Prod.mk.inj hview
      rw [hadd] at hshift
      rw [hmore, hshift]
      refine Prod.ext ?_ hrest
      show s.shift (run.converter.uncounted.run run.input source run.out).outcome = _
      rw [hout, RunSummary.shift_shift]
      rfl
  case case2 c input out run hpaused =>
    have hnone : run.paused? = none := by simpa using hpaused
    obtain ⟨insts, after, rest, h⟩ := c.run_accounted ⟨input, source, out⟩
    refine ⟨[], [], run, rfl, rfl, by simp, hnone, fun e he => (h.error e he).2.2.2.1, ?_⟩
    have hsame := uncounted_runFrom source {} c input out rfl
    rw [show (c.runFrom source {} input out).paused? = none from hnone] at hsame
    have hnothing : (RunSummary.total []).shift run.outcome = run.outcome :=
      RunSummary.shift_nothing _
    rw [hnothing]
    exact hsame

/-- **Counted runs compose.**  A converter of knapsacks that is run with a number until nothing is
left commits that number of instances in every run but the last, leaves the outlet and the stream
as one run without a number does, and fails if that one does, in the same way and after as many
instances. -/
theorem drain_counted (source : String) (n : { n : ℕ // 0 < n }) (cursor : Cursor)
    (writer : OutputFormat) (settings : Settings) (input : InputStream) (out : Outlet) :
    let counted : Converter :=
      { reader := { format := .knapsack, cursor }, writer,
        settings := { settings with count := some n } }
    let whole : Converter :=
      { reader := { format := .knapsack, cursor }, writer,
        settings := { settings with count := none } }
    ∃ paused summaries last, counted.drain source input out = paused ++ [last] ∧
      paused.map (·.outcome) = summaries.map Except.ok ∧
      (∀ s ∈ summaries, s.written = n.val ∧ s.exhausted = false) ∧
      last.out = (whole.run input source out).out ∧
      last.input = (whole.run input source out).input ∧
      ((∃ s t, last.outcome = .ok s ∧ (whole.run input source out).outcome = .ok t ∧
          s.exhausted = true ∧ t.exhausted = true ∧
          ((summaries ++ [s]).map (·.written)).sum = t.written ∧
          ((summaries ++ [s]).map (·.aux)).sum = t.aux ∧
          (summaries ++ [s]).flatMap (·.outputs) = t.outputs) ∨
        ∃ e f, last.outcome = .error e ∧ (whole.run input source out).outcome = .error f ∧
          e.stage = f.stage ∧ e.label = f.label ∧ e.source = f.source ∧
          (summaries.map (·.written)).sum + (e.index - 1) = f.index - 1) := by
  intro counted whole
  obtain ⟨paused, summaries, last, hdrain, houtcomes, hall, hlast, hindex, hview⟩ :=
    view_uncounted_run source counted input out rfl rfl
  have hwhole : counted.uncounted = whole := rfl
  rw [hwhole] at hview
  obtain ⟨hout, hrest⟩ := Prod.mk.inj hview
  obtain ⟨hinput, hcommitted⟩ := Prod.mk.inj hrest
  -- the outcome of the whole run is that of the last one, with what the paused ones counted added
  refine ⟨paused, summaries, last, hdrain, houtcomes, hall, hcommitted.symm, hinput.symm, ?_⟩
  cases hcase : last.outcome with
  | ok s =>
    have hexhausted : s.exhausted = true := by
      by_contra hopen
      have hsome : last.paused? = some s :=
        paused?_eq_some_iff.2 ⟨hcase, by simpa using hopen⟩
      rw [hlast] at hsome
      cases hsome
    rw [hcase] at hout
    refine .inl ⟨s, _, rfl, hout, hexhausted, hexhausted, ?_, ?_, ?_⟩
    · rw [List.map_append, List.sum_append, ← RunSummary.written_total]
      simp [RunSummary.add]
    · rw [List.map_append, List.sum_append, ← RunSummary.aux_total]
      simp [RunSummary.add]
    · rw [List.flatMap_append, ← RunSummary.outputs_total]
      simp [RunSummary.add]
  | error e =>
    rw [hcase] at hout
    refine .inr ⟨e, _, rfl, hout, rfl, rfl, rfl, ?_⟩
    have hpos := hindex e hcase
    show _ = (RunSummary.total summaries).written + e.index - 1
    rw [RunSummary.written_total]
    omega

end Converter

end LinearInterchange
