import LinearInterchange.Conversion.Batch
import LinearInterchange.Proofs.CountedRuns

/-!
# What a batch commits and what it reports

A run that fails leaves the instances that it has committed in the outlet.  Its error tells how many
there were, by the number of the instance that failed, but it has no summary, and the number of
instances written by a batch is made up from the summaries.  So that number falls short of what the
batch has committed by the instances that failed runs had committed before they failed
(`length_committed`).

`committed` lists the committed instances of a run, apart from how the run counts them, and `Takes`
says that they are what the outlet has taken.
-/

namespace LinearInterchange

/-- An outlet takes the complete encodings of what is made of instances, one after another.  What it
refuses in between is not among them. -/
inductive Outlet.Takes (settings : Settings) (writer : OutputFormat) :
    Outlet → List Instance → Outlet → Prop
  | nil (out : Outlet) : Takes settings writer out [] out
  | took {inst : Instance} {insts : List Instance} {name : Option String} {text : String}
      {path : Option String} {out out₁ out₂ : Outlet}
      (htext : Converter.Encodes settings writer inst text)
      (hcommit : out.commit name writer.extension text = (.ok path, out₁))
      (hrest : Takes settings writer out₁ insts out₂) :
      Takes settings writer out (inst :: insts) out₂
  | refused {insts : List Instance} {name : Option String} {text : String} {fault : SystemFault}
      {out out₁ out₂ : Outlet}
      (hcommit : out.commit name writer.extension text = (.error fault, out₁))
      (hrest : Takes settings writer out₁ insts out₂) : Takes settings writer out insts out₂

/-- What an outlet takes after more, it takes in all. -/
lemma Outlet.Takes.append {settings : Settings} {writer : OutputFormat}
    {insts more : List Instance} {out out₁ out₂ : Outlet}
    (h : out.Takes settings writer insts out₁) (hmore : out₁.Takes settings writer more out₂) :
    out.Takes settings writer (insts ++ more) out₂ := by
  induction h with
  | nil => exact hmore
  | took htext hcommit _ ih => exact .took htext hcommit (ih hmore)
  | refused hcommit _ ih => exact .refused hcommit (ih hmore)

namespace Converter

variable {c : Converter} {inst : Instance} {insts : List Instance} {input input₁ : InputStream}
  {out out₁ out₂ : Outlet} {r₁ : Reader}

/-! ## One instance -/

/-- An outlet that goes on with a processed instance has taken it. -/
lemma takes_of_process_ok {done : ℕ × Option String} (h : c.process inst out = (.ok done, out₁))
    (hrest : out₁.Takes c.settings c.writer insts out₂) :
    out.Takes c.settings c.writer (inst :: insts) out₂ := by
  unfold process at h
  split at h
  · cases h
  next inst' aux htransform =>
    obtain ⟨hmap, rfl⟩ := Prod.mk.inj h
    obtain ⟨path, hpath, -⟩ := map_eq_ok.1 hmap
    obtain ⟨text, hwrite, hcommit⟩ := store_ok (Prod.ext (mapError_eq_ok.1 hpath) rfl)
    exact .took ⟨inst', aux, htransform, hwrite⟩ hcommit hrest

/-- An outlet has taken nothing of an instance that is not processed. -/
lemma takes_of_process_error {e : Stage × StageError}
    (h : c.process inst out = (.error e, out₁)) : out.Takes c.settings c.writer [] out₁ := by
  unfold process at h
  split at h
  · obtain rfl := (Prod.mk.inj h).2
    exact .nil _
  next inst' aux htransform =>
    obtain ⟨hmap, hout₁⟩ := Prod.mk.inj h
    obtain ⟨e', he', -⟩ := mapError_eq_error.1 (map_eq_error.1 hmap)
    rcases store_error (Prod.ext he' hout₁) with ⟨-, -, -, rfl⟩ | ⟨text, fault, -, -, hcommit⟩
    · exact .nil _
    · exact .refused hcommit (.nil _)

/-! ## One run -/

/-- The instances that a run commits if `before` were committed already: those that are decoded and
processed, up to the first one that is not, or to the last one that the run gets to. -/
def committed (before : ℕ) (c : Converter) (input : InputStream) (out : Outlet) :
    List Instance :=
  match _hnext : c.reader.next input with
  | (.ok (some inst), reader, input') =>
    match ({ c with reader } : Converter).process inst out with
    | (.ok _, out') =>
      if _hlast : !reader.format.isMulti || reader.cursor.atEnd ||
          isReached c.settings (before + 1) then [inst]
      else inst :: committed (before + 1) { c with reader } input' out'
    | (.error _, _) => []
  | (_, _, _) => []
termination_by input.source.rest.length
decreasing_by
  have hmulti : reader.format.isMulti = true := by simp_all
  exact Reader.length_rest_next _hnext hmulti

/-- Nothing is committed where nothing is decoded. -/
lemma committed_of_not_decoded {before : ℕ} (h : ∀ inst, (c.reader.next input).1 ≠ .ok (some inst)) :
    c.committed before input out = [] := by
  rw [committed]
  split
  next inst reader input' hnext => exact absurd (congrArg Prod.fst hnext) (h inst)
  next => rfl

/-- A decoded instance is committed if it is processed, and nothing is if it is not. -/
lemma committed_of_decoded {before : ℕ} (h : c.reader.next input = (.ok (some inst), r₁, input₁)) :
    c.committed before input out =
      match ({ c with reader := r₁ } : Converter).process inst out with
      | (.ok _, out₁) =>
        if !r₁.format.isMulti || r₁.cursor.atEnd || isReached c.settings (before + 1) then [inst]
        else inst :: ({ c with reader := r₁ } : Converter).committed (before + 1) input₁ out₁
      | (.error _, _) => [] := by
  rw [committed]
  split
  next hnext =>
    rw [h] at hnext
    cases hnext
    rfl
  next => simp_all

/-- The number of instances that an outcome tells of: those written, or those before the one that
failed. -/
def told : Except RunError RunSummary → ℕ
  | .ok s => s.written
  | .error e => e.index - 1

/-- A run tells in its outcome how many instances it has committed, whether it succeeds or fails, and
the outlet has taken these. -/
lemma runFrom_committed (source : String) (s : RunSummary) (c : Converter) (input : InputStream)
    (out : Outlet) :
    told (c.runFrom source s input out).outcome =
        s.written + (c.committed s.written input out).length ∧
      out.Takes c.settings c.writer (c.committed s.written input out)
        (c.runFrom source s input out).out := by
  -- what is committed unfolds by one instance in the branches in which one is decoded
  fun_induction runFrom source s c input out
  case case1 s c input out index e r₁ input₁ hnext =>
    rw [committed_of_not_decoded (by simp [hnext])]
    exact ⟨rfl, .nil _⟩
  case case2 s c input out r₁ input₁ hnext =>
    rw [committed_of_not_decoded (by simp [hnext])]
    exact ⟨rfl, .nil _⟩
  case case3 s c input out index inst r₁ input₁ hnext label c₁ stage e out₁ hprocess =>
    rw [committed_of_decoded hnext]
    simp only [show ({ c with reader := r₁ } : Converter).process inst out = _ from hprocess]
    exact ⟨rfl, takes_of_process_error hprocess⟩
  case case4 s c input out inst r₁ input₁ hnext c₁ aux path out₁ hprocess s₁ hend =>
    rw [committed_of_decoded hnext]
    simp only [show ({ c with reader := r₁ } : Converter).process inst out = _ from hprocess, hend,
      Bool.true_or, if_true]
    exact ⟨rfl, takes_of_process_ok hprocess (.nil _)⟩
  case case5 s c input out inst r₁ input₁ hnext c₁ aux path out₁ hprocess s₁ hend hreached =>
    have hlast : isReached c.settings (s.written + 1) = true := hreached
    rw [committed_of_decoded hnext]
    simp only [show ({ c with reader := r₁ } : Converter).process inst out = _ from hprocess, hlast,
      Bool.or_true, if_true]
    exact ⟨rfl, takes_of_process_ok hprocess (.nil _)⟩
  case case6 s c input out inst r₁ input₁ hnext c₁ aux path out₁ hprocess s₁ hend hreached ih =>
    -- neither the end of the text nor the number stops the run here
    have hmore : ¬(!r₁.format.isMulti || r₁.cursor.atEnd ||
        isReached c.settings (s.written + 1)) = true := by
      rw [Bool.or_eq_true]
      exact not_or.2 ⟨hend, hreached⟩
    obtain ⟨htold, htakes⟩ := ih
    rw [committed_of_decoded hnext]
    simp only [show ({ c with reader := r₁ } : Converter).process inst out = _ from hprocess,
      if_neg hmore]
    refine ⟨?_, takes_of_process_ok hprocess htakes⟩
    rw [htold, List.length_cons]
    exact Nat.succ_add_eq_add_succ ..

/-- A run tells in its outcome how many instances it has committed, and the outlet has taken
these. -/
lemma run_committed (c : Converter) (input : InputStream) (source : String) (out : Outlet) :
    told (c.run input source out).outcome = (c.committed 0 input out).length ∧
      out.Takes c.settings c.writer (c.committed 0 input out) (c.run input source out).out := by
  obtain ⟨htold, htakes⟩ := runFrom_committed source {} c input out
  exact ⟨htold.trans (Nat.zero_add _), htakes⟩

end Converter

namespace Batch

/-! ## A batch -/

/-- The stream of an input that can be read. -/
def stream? (s : Surroundings) : Input → Option InputStream
  | .standard => some (.ofBytes s.standard false bufferSize)
  | .file path =>
    match s.out.folder.find path with
    | .ok (.file _ bytes) => some (.ofBytes bytes true bufferSize)
    | _ => none

/-- The instances that an input of a batch commits. -/
def committedBy (registry : Registry) (job : Job) (input : Input) (s : Surroundings) :
    List Instance :=
  match registry.converter job, stream? s input with
  | .ok c, some stream => c.committed 0 stream s.out
  | _, _ => []

/-- The instances that the inputs of a batch commit, one input after another. -/
def committed (registry : Registry) (job : Job) : List Input → Surroundings → List Instance
  | [], _ => []
  | input :: inputs, s =>
    committedBy registry job input s ++
      committed registry job inputs (convertInput registry job input s).2

namespace Summary

/-- The number of instances that the summary of an input counts. -/
def counted : Except ConvertError RunSummary → ℕ
  | .ok s => s.written
  | .error _ => 0

/-- The number of instances that a failed run had committed before the one that failed. -/
def uncounted : Except ConvertError RunSummary → ℕ
  | .error (.run e) => e.index - 1
  | _ => 0

/-- The number of instances that runs had committed before they failed, over the inputs that
failed. -/
def unreported (s : Summary) : ℕ :=
  (s.map fun p => uncounted p.2).sum

/-- The number of instances written is the sum over the inputs that did not fail. -/
lemma written_eq_sum (s : Summary) : s.written = (s.map fun p => counted p.2).sum := by
  have hfold : ∀ total, s.foldl (fun total (p : Input × Except ConvertError RunSummary) =>
      match p.2 with
      | .ok summary => total + summary.written
      | .error _ => total) total = total + (s.map fun p => counted p.2).sum := by
    induction s with
    | nil => exact fun total => rfl
    | cons p s ih =>
      obtain ⟨input, outcome⟩ := p
      intro total
      rw [List.foldl_cons, ih, List.map_cons, List.sum_cons]
      cases outcome with
      | ok summary => exact Nat.add_assoc ..
      | error e => simp [counted]
  exact (hfold 0).trans (Nat.zero_add _)

/-- Nothing is unreported if every run that failed did so on its first instance. -/
lemma unreported_eq_zero_iff (s : Summary) :
    s.unreported = 0 ↔ ∀ input e, (input, .error (.run e)) ∈ s → e.index ≤ 1 := by
  rw [unreported, List.sum_eq_zero_iff, List.forall_mem_map]
  constructor
  · intro h input e hmem
    exact Nat.le_of_sub_eq_zero (h _ hmem)
  · rintro h ⟨input, outcome⟩ hmem
    match outcome with
    | .ok _ | .error (.config _) | .error (.closed _ _) => rfl
    | .error (.run e) => exact Nat.sub_eq_zero_of_le (h input e hmem)

end Summary

open Summary

/-- What an input commits is counted by its summary if it has one, and told by its error if not; and
the outlet has taken it. -/
lemma convertInput_committed (registry : Registry) (job : Job) (input : Input)
    (s : Surroundings) :
    (committedBy registry job input s).length =
        counted (convertInput registry job input s).1 +
          uncounted (convertInput registry job input s).1 ∧
      ∀ c, registry.converter job = .ok c →
        s.out.Takes c.settings c.writer (committedBy registry job input s)
          (convertInput registry job input s).2.out := by
  have htold : ∀ outcome : Except RunError RunSummary, Converter.told outcome =
      counted (outcome.mapError .run) + uncounted (outcome.mapError .run) := by
    rintro (e | t)
    · exact (Nat.zero_add _).symm
    · rfl
  unfold committedBy convertInput
  cases hconverter : registry.converter job with
  | error e => exact ⟨rfl, by rintro c ⟨⟩⟩
  | ok c =>
    cases input with
    | standard =>
      obtain ⟨hlength, htakes⟩ :=
        c.run_committed (.ofBytes s.standard false bufferSize) (toString Input.standard) s.out
      refine ⟨hlength.symm.trans (htold _), ?_⟩
      rintro _ ⟨⟩
      exact htakes
    | file path =>
      simp only [stream?]
      -- a path that leads to nothing or to a folder commits nothing
      cases s.out.folder.find path with
      | error fault =>
        refine ⟨rfl, ?_⟩
        rintro _ ⟨⟩
        exact .nil _
      | ok entry =>
        cases entry with
        | dir here =>
          refine ⟨rfl, ?_⟩
          rintro _ ⟨⟩
          exact .nil _
        | file here bytes =>
          obtain ⟨hlength, htakes⟩ := c.run_committed (.ofBytes bytes true bufferSize) path s.out
          refine ⟨hlength.symm.trans (htold _), ?_⟩
          rintro _ ⟨⟩
          exact htakes

/-- **What a batch reports of what it commits.**  The outlet takes the committed instances of the
inputs, one after another.  The number of instances written that a batch reports, and the number of
instances that failed runs had committed, make up the number of committed instances; so a batch
reports all that it has committed just if every run that failed did so on its first instance. -/
theorem length_committed (registry : Registry) (job : Job) (inputs : List Input)
    (s : Surroundings) :
    let batch := convertAll registry job inputs s
    let insts := committed registry job inputs s
    (∀ c, registry.converter job = .ok c →
      s.out.Takes c.settings c.writer insts batch.2.out) ∧
    insts.length = batch.1.written + batch.1.unreported ∧
    (batch.1.written = insts.length ↔
      ∀ input e, (input, .error (.run e)) ∈ batch.1 → e.index ≤ 1) := by
  intro batch insts
  have hall : (∀ c, registry.converter job = .ok c →
      s.out.Takes c.settings c.writer insts batch.2.out) ∧
      insts.length = batch.1.written + batch.1.unreported := by
    simp only [batch, insts, written_eq_sum, unreported]
    clear batch insts
    induction inputs generalizing s with
    | nil => exact ⟨fun c _ => .nil _, rfl⟩
    | cons input inputs ih =>
      obtain ⟨hlength, htakes⟩ := convertInput_committed registry job input s
      obtain ⟨htakes', hlength'⟩ := ih (convertInput registry job input s).2
      refine ⟨fun c hc => (htakes c hc).append (htakes' c hc), ?_⟩
      simp only [committed, convertAll, List.length_append, List.map_cons, List.sum_cons, hlength,
        hlength']
      omega
  refine ⟨hall.1, hall.2, ?_⟩
  rw [← unreported_eq_zero_iff, hall.2]
  omega

/-- A stream of two knapsacks that is converted to its end, and one that breaks off in its third
entry: four instances are committed, and two of them are reported. -/
theorem length_committed_of_break :
    let job : Job := { reader := "pisinger", writer := "inc" }
    let whole := "a\nn 0\nc 0\n-----\n\nb\nn 0\nc 1\n-----\n"
    let folder := (({} : Folder).addFile "k" (bytesOf whole)).addFile "l" (bytesOf (whole ++ "\nc"))
    let s : Surroundings := ⟨{ folder }, []⟩
    let batch := convertAll .standard job [.file "k", .file "l"] s
    let insts := committed .standard job [.file "k", .file "l"] s
    (∃ c, Registry.standard.converter job = .ok c ∧
      s.out.Takes c.settings c.writer insts batch.2.out) ∧
    insts.map (·.name) = [some "a", some "b", some "a", some "b"] ∧
    batch.1.written = 2 ∧ batch.1.unreported = 2 ∧ batch.1.written ≠ insts.length ∧
    ¬∀ input e, (input, .error (.run e)) ∈ batch.1 → e.index ≤ 1 := by
  intro job whole folder s batch insts
  obtain ⟨htakes, hlength, hall⟩ := length_committed .standard job [.file "k", .file "l"] s
  have hok : (Registry.standard.converter job).isOk = true := by decide +kernel
  have hwritten : batch.1.written = 2 := by decide +kernel
  have hunreported : batch.1.unreported = 2 := by decide +kernel
  have hne : batch.1.written ≠ insts.length := by
    intro heq
    have hsum : insts.length = batch.1.written + batch.1.unreported := hlength
    omega
  refine ⟨?_, by decide +kernel, hwritten, hunreported, hne, fun h => hne (hall.2 h)⟩
  cases hconverter : Registry.standard.converter job with
  | error e =>
    rw [hconverter] at hok
    cases hok
  | ok c => exact ⟨c, rfl, htakes c hconverter⟩

/-- A stream that breaks off after its first knapsack: one instance is committed, and the batch reports
none. -/
theorem written_lt_committed :
    let job : Job := { reader := "pisinger", writer := "inc" }
    let folder := ({} : Folder).addFile "k" (bytesOf "a\nn 0\nc 0\n-----\n\nb\n")
    let batch := convertAll .standard job [.file "k"] ⟨{ folder }, []⟩
    batch.2.out.received =
        bytesOf "c 0 variables, 1 constraints, written by ilpconv\nn a\no max\nk <= 0\n" ∧
      (committed .standard job [.file "k"] ⟨{ folder }, []⟩).length = 1 ∧
      batch.1.written = 0 := by
  decide +kernel

end Batch

end LinearInterchange
