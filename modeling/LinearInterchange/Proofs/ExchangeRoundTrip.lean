import LinearInterchange.Conversion.Reader
import LinearInterchange.Conversion.Writer
import LinearInterchange.Proofs.Arithmetic
import LinearInterchange.Proofs.Declarations
import LinearInterchange.Proofs.Emission
import LinearInterchange.Proofs.ExchangeLine
import LinearInterchange.Proofs.LineStream

/-!
# The exchange format is lossless

An instance that is written in the exchange format and read again is the same instance.  The proof
follows the reader: each line is read back as the line that was written, each line adds the part of
the instance that it was made of, and what an instance keeps beside its variables, the counter of
ids and the number of auxiliary variables, is determined by the variables.
-/

namespace LinearInterchange

namespace Exchange

open Text

/-! ## Adding the lines of an instance -/

/-- The coefficient can be read back.  The least word cannot, since the digits of an integer have to
be in range before its sign is applied. -/
def Readable (c : Coeff) : Prop :=
  c.val ≠ -9223372036854775808

instance (c : Coeff) : Decidable (Readable c) :=
  inferInstanceAs (Decidable (_ ≠ _))

lemma readCoeff_toText {c : Coeff} (h : Readable c) : readCoeff c.toText.toList = .ok c :=
  mapError_eq_ok.2 (Coeff.read_toText h)

lemma ofId_id (v : Var) : Var.ofId v.id = .ok v :=
  dif_pos v.id_le

/-- Terms over declared variables are read as they were written. -/
lemma readTerms_termTexts {inst : Instance} {ts : List Term} (hdeclared : inst.DeclaresAll ts)
    (hreadable : ∀ t ∈ ts, Readable t.coeff) : readTerms inst (termTexts ts) = .ok ts := by
  refine mapM_eq_ok.2 ?_
  rw [termTexts, List.forall₂_map_left_iff, List.forall₂_same]
  intro t ht
  refine bind_eq_ok.2 ⟨t.var, mapError_eq_ok.2 (ofId_id _), ?_⟩
  rw [if_pos (hdeclared t ht)]
  exact bind_eq_ok.2 ⟨t.coeff, readCoeff_toText (hreadable t ht), rfl⟩

/-- A domain that holds a value is read as it was written. -/
lemma readDomain_boundsOf {d : Domain} (h : d.Nonempty) :
    readDomain (Line.boundsOf d) = .ok d := by
  cases d with
  | bool => rfl
  | range lb ub =>
    refine mapError_eq_ok.2 (if_neg ?_)
    rw [Int64.lt_iff_toInt_lt]
    exact not_lt.2 h

namespace State

variable {s : State} {inst : Instance}

/-- The line of a variable restores the variable. -/
lemma add_varLine {x : Variable} (hdomain : x.domain.Nonempty)
    (hrestore : s.inst.restore x = .ok inst) : s.add (varLine x) = .ok { s with inst } := by
  have horigin : (if decide (x.origin = .auxiliary) = true then Origin.auxiliary else .user) =
      x.origin := by
    cases x.origin <;> rfl
  rw [Line.varLine_eq]
  refine bind_eq_ok.2 ⟨x.var, mapError_eq_ok.2 (ofId_id _), ?_⟩
  refine bind_eq_ok.2 ⟨x.domain, readDomain_boundsOf hdomain, ?_⟩
  refine bind_eq_ok.2 ⟨inst, mapError_eq_ok.2 ?_, rfl⟩
  rw [String.ofList_toList, horigin]
  exact hrestore

/-- The lines of new variables add the variables. -/
lemma add_varLines (xs : List Variable) (hreg : s.inst.Registered)
    (hids : ((s.inst.vars ++ xs).map (·.var)).Nodup)
    (hnames : ((s.inst.vars ++ xs).map (·.name)).Nodup)
    (hdomains : ∀ x ∈ xs, x.domain.Nonempty) :
    (xs.map varLine).foldlM State.add s = .ok { s with inst := s.inst.appendAll xs } := by
  induction xs generalizing s with
  | nil => rfl
  | cons x xs ih =>
    have hnew := hreg.isNew_of_nodup hids hnames
    rw [List.append_cons, ← hreg.vars_append hnew] at hids hnames
    rw [List.forall_mem_cons] at hdomains
    have hadd := add_varLine hdomains.1 (Instance.restore_of_new hnew)
    have hrest := ih (s := { s with inst := s.inst.append x }) (hreg.append hnew) hids hnames
      hdomains.2
    rw [List.map_cons, List.foldlM_cons]
    exact bind_eq_ok.2 ⟨_, hadd, hrest⟩

/-- The line of a constraint over declared variables adds the constraint. -/
lemma add_constrLine {c : LinConstraint} (hdeclared : s.inst.DeclaresAll c.terms)
    (hrhs : Readable c.rhs) (hterms : ∀ t ∈ c.terms, Readable t.coeff) :
    s.add (constrLine c) =
      .ok { s with inst := { s.inst with constrs := s.inst.constrs ++ [c] } } := by
  have hadd := Instance.addConstr_of_declared hdeclared
  rw [constrLine]
  refine bind_eq_ok.2 ⟨c.rhs, readCoeff_toText hrhs, ?_⟩
  refine bind_eq_ok.2 ⟨c.terms, readTerms_termTexts hdeclared hterms, ?_⟩
  exact bind_eq_ok.2 ⟨_, mapError_eq_ok.2 hadd, rfl⟩

/-- The lines of constraints over declared variables add the constraints. -/
lemma add_constrLines (cs : List LinConstraint)
    (hdeclared : ∀ c ∈ cs, s.inst.DeclaresAll c.terms) (hrhs : ∀ c ∈ cs, Readable c.rhs)
    (hterms : ∀ c ∈ cs, ∀ t ∈ c.terms, Readable t.coeff) :
    (cs.map constrLine).foldlM State.add s =
      .ok { s with inst := { s.inst with constrs := s.inst.constrs ++ cs } } := by
  induction cs generalizing s with
  | nil =>
    rw [List.append_nil]
    rfl
  | cons c cs ih =>
    rw [List.forall_mem_cons] at hdeclared hrhs hterms
    have hadd := add_constrLine hdeclared.1 hrhs.1 hterms.1
    have hrest := ih (s := { s with inst := { s.inst with constrs := s.inst.constrs ++ [c] } })
      hdeclared.2 hrhs.2 hterms.2
    rw [List.map_cons, List.foldlM_cons, List.append_cons]
    exact bind_eq_ok.2 ⟨_, hadd, hrest⟩

/-- The line of an objective over declared variables sets the objective; without a line there is
none. -/
lemma add_objectiveLines (o : Objective) (hnone : s.inst.objective = {})
    (hfirst : s.hasObjective = false) (hdeclared : s.inst.DeclaresAll o.terms)
    (hterms : ∀ t ∈ o.terms, Readable t.coeff) :
    ∃ hasObjective, (objectiveLines o).foldlM State.add s =
      .ok { inst := { s.inst with objective := o }, hasObjective } := by
  obtain ⟨direction, terms⟩ := o
  rw [objectiveLines]
  split
  case isTrue hempty =>
    simp only [Bool.and_eq_true, List.isEmpty_iff] at hempty
    obtain ⟨rfl, hdirection⟩ := hempty
    -- an objective without terms and direction has no line, and is the one that is there already
    have hunspecified : direction = .unspecified := by
      cases direction with
      | unspecified => rfl
      | _ => cases hdirection
    refine ⟨s.hasObjective, ?_⟩
    show Except.ok s = .ok { s with inst := { s.inst with objective := ⟨direction, []⟩ } }
    rw [hunspecified]
    exact congrArg (fun o => Except.ok { s with inst := { s.inst with objective := o } }) hnone
  case isFalse =>
    refine ⟨true, ?_⟩
    have hset := Instance.setObjective_of_declared hdeclared
    rw [List.foldlM_cons]
    refine bind_eq_ok.2 ⟨{ inst := _, hasObjective := true }, ?_, rfl⟩
    rw [State.add, if_neg (by simp [hfirst])]
    refine bind_eq_ok.2 ⟨terms, readTerms_termTexts hdeclared hterms, ?_⟩
    exact bind_eq_ok.2 ⟨_, mapError_eq_ok.2 hset, rfl⟩

end State

/-! ## The lines of an instance -/

/-- The exchange format can hold the instance: it is well formed, its domains hold values, and its
names and its numbers can be told from what stands around them. -/
structure Storable (inst : Instance) : Prop extends inst.WellFormed where
  /-- Domains hold a value. -/
  domains_nonempty : ∀ x ∈ inst.vars, x.domain.Nonempty
  /-- Variables have names. -/
  names_ne : ∀ x ∈ inst.vars, x.name ≠ ""
  /-- The names of variables have no white space. -/
  names_solid : ∀ x ∈ inst.vars, IsSolid x.name.toList
  /-- The name of the instance is not empty. -/
  name_ne : ∀ n ∈ inst.name, n ≠ ""
  /-- The name of the instance has no white space at its ends. -/
  name_trim : ∀ n ∈ inst.name, trim n.toList = n.toList
  /-- The name of the instance is a single line. -/
  name_no_feed : ∀ n ∈ inst.name, '\n' ∉ n.toList
  /-- The right-hand sides can be read back. -/
  rhs_readable : ∀ c ∈ inst.constrs, Readable c.rhs
  /-- The coefficients of the constraints can be read back. -/
  constrs_readable : ∀ c ∈ inst.constrs, ∀ t ∈ c.terms, Readable t.coeff
  /-- The coefficients of the objective can be read back. -/
  objective_readable : ∀ t ∈ inst.objective.terms, Readable t.coeff

variable {inst : Instance}

/-- Every line of an instance is read back from its text. -/
lemma Storable.writtenAs (h : Storable inst) : ∀ l ∈ lines inst, l.WrittenAs l.render := by
  intro l hl
  simp only [lines, List.mem_append, Option.mem_toList, Option.map_eq_some_iff,
    List.mem_map] at hl
  rcases hl with ((⟨n, hn, rfl⟩ | ⟨x, hx, rfl⟩) | hl) | ⟨c, hc, rfl⟩
  · have hne : n.toList ≠ [] := by simpa using h.name_ne n hn
    exact Line.writtenAs_name hne (h.name_trim n hn) (h.name_no_feed n hn)
  · exact Line.writtenAs_varLine (h.names_ne x hx) (h.names_solid x hx)
  · rw [objectiveLines] at hl
    split at hl
    · cases hl
    · rw [List.mem_singleton] at hl
      rw [hl]
      exact Line.writtenAs_objective _
  · exact Line.writtenAs_constrLine c

/-- The lines of an instance add up to the instance. -/
lemma Storable.add_lines (h : Storable inst) :
    ∃ hasObjective, (lines inst).foldlM State.add {} = .ok { inst, hasObjective } := by
  -- the name, the variables, the objective and the constraints come in one after another
  have hname : ((inst.name.map fun n => Line.name n.toList).toList).foldlM State.add {} =
      .ok { inst := { name := inst.name } } := by
    cases inst.name with
    | none => rfl
    | some n =>
      show Except.ok _ = Except.ok _
      rw [Instance.setName, String.ofList_toList]
  have hempty : Instance.Registered { name := inst.name } :=
    Instance.wellFormed_empty.toRegistered.replace inst.name [] {}
  have hvars := State.add_varLines (s := { inst := { name := inst.name } }) inst.vars hempty
    h.nodup_ids h.nodup_names h.domains_nonempty
  -- the variables determine all that was kept of them
  have happended : Instance.appendAll { name := inst.name } inst.vars =
      { inst with constrs := [], objective := {} } := by
    obtain ⟨hreg, happend⟩ := hempty.appendAll inst.vars h.nodup_ids h.nodup_names
    obtain ⟨hname, hconstrs, hobjective⟩ := Instance.appendAll_eq { name := inst.name } inst.vars
    rw [h.toRegistered.eq_of_vars hreg happend, hname, hconstrs, hobjective]
  rw [happended] at hvars
  obtain ⟨hasObjective, hobjective⟩ :=
    State.add_objectiveLines (s := { inst := { inst with constrs := [], objective := {} } })
      inst.objective rfl rfl h.objective_declared h.objective_readable
  have hconstrs :=
    State.add_constrLines (s := { inst := { inst with constrs := [] }, hasObjective })
      inst.constrs h.constrs_declared h.rhs_readable h.constrs_readable
  refine ⟨hasObjective, ?_⟩
  rw [lines, List.foldlM_append, List.foldlM_append, List.foldlM_append]
  refine bind_eq_ok.2 ⟨_, bind_eq_ok.2 ⟨_, bind_eq_ok.2 ⟨_, hname, hvars⟩, hobjective⟩, ?_⟩
  exact hconstrs

/-- The texts of the lines of an instance, under a comment if there is to be any. -/
def texts (comments : Bool) (inst : Instance) : List String :=
  (if comments then [header inst] else []) ++ (lines inst).map Line.render

/-- What is written is the text of the lines. -/
lemma emits_encode (comments : Bool) (inst : Instance) :
    Emit.Emits (encode comments inst) (InputStream.unlines (texts comments inst)) := by
  have hlines : Emit.Emits ((lines inst).forM fun l => Emit.line l.render)
      (InputStream.unlines ((lines inst).map Line.render)) := by
    rw [InputStream.unlines, List.map_map]
    exact Emit.emits_forM fun l _ => Emit.emits_line l.render
  cases comments with
  | false => exact hlines
  | true =>
    rw [texts, if_pos rfl, List.singleton_append, InputStream.unlines, List.map_cons,
      String.join_cons]
    exact (Emit.emits_line (header inst)).bind hlines

/-- No text of a line holds a line feed. -/
lemma Storable.no_feed (h : Storable inst) (comments : Bool) :
    ∀ text ∈ texts comments inst, '\n' ∉ text.toList := by
  intro text htext
  rw [texts, List.mem_append] at htext
  rcases htext with htext | htext
  · cases comments with
    | false => cases htext
    | true =>
      rw [List.mem_singleton.1 htext]
      exact (Line.writtenAs_header inst).no_feed
  · obtain ⟨l, hl, rfl⟩ := List.mem_map.1 htext
    exact (h.writtenAs l hl).no_feed

/-- The text of a line adds the line that it was made of. -/
lemma Line.WrittenAs.addText {l : Line} {text : String} (h : l.WrittenAs text) (s : State) :
    s.addText (text ++ "\n") = s.add l := by
  have htrim : trimRight (text ++ "\n").toList = text.toList := by
    rw [String.toList_append]
    exact trimRight_append (List.forall_mem_singleton.2 rfl) h.ends
  have hne : text.toList.isEmpty = false := by
    rw [List.isEmpty_eq_false_iff]
    intro hnil
    have hread := h.read_eq
    rw [hnil] at hread
    cases hread
  rw [State.addText, htrim, hne, h.read_eq]
  rfl

/-- Adding texts of lines is adding the lines. -/
lemma foldlM_addText {ls : List Line} (hls : ∀ l ∈ ls, l.WrittenAs l.render) (s : State) :
    (ls.map Line.render).foldlM (fun (s : State) text => s.addText (text ++ "\n")) s =
      ls.foldlM State.add s := by
  induction ls generalizing s with
  | nil => rfl
  | cons l ls ih =>
    rw [List.map_cons, List.foldlM_cons, List.foldlM_cons, (hls l List.mem_cons_self).addText]
    refine congrArg _ (funext fun s' => ?_)
    exact ih (fun l' hl' => hls l' (List.mem_cons_of_mem _ hl')) s'

/-- The texts of the lines of an instance add up to the instance. -/
lemma Storable.addText_texts (h : Storable inst) (comments : Bool) :
    ∃ hasObjective, (texts comments inst).foldlM
      (fun (s : State) text => s.addText (text ++ "\n")) {} = .ok { inst, hasObjective } := by
  obtain ⟨hasObjective, hlines⟩ := h.add_lines
  rw [← foldlM_addText h.writtenAs] at hlines
  refine ⟨hasObjective, ?_⟩
  cases comments with
  | false => exact hlines
  | true =>
    have hheader := (Line.writtenAs_header inst).addText {}
    rw [texts, if_pos rfl, List.singleton_append, List.foldlM_cons]
    exact bind_eq_ok.2 ⟨{}, hheader, hlines⟩

/-! ## Writing and reading -/

/-- The instance is decoded from a stream that holds what was written. -/
lemma Storable.decode (h : Storable inst) (comments : Bool) {input : InputStream}
    (hrest : input.source.rest = bytesOf (InputStream.unlines (texts comments inst))) :
    ∃ input', Exchange.decode input = (.ok inst, input') := by
  obtain ⟨hasObjective, hrun⟩ := h.addText_texts comments
  obtain ⟨last, input', hfold⟩ := InputStream.foldLines_texts
    (fun (s : State) pos text =>
      (pos.report Fault.refusal (s.addText text)).map InputStream.LineStep.more)
    (fun s pos text s' hs => by rw [hs]; rfl) (h.no_feed comments) hrun input.position hrest
  refine ⟨input', ?_⟩
  simp only [Exchange.decode, hfold]
  rfl

/-- **The exchange format is lossless.**  Writing succeeds, with and without comments, and a fresh
reader finds in the text the same instance and nothing after it. -/
theorem next_encode (h : Storable inst) (comments seekable : Bool) (chunk : ℕ) :
    ∃ text, ((OutputFormat.exchange comments).encode inst).output = (.ok (), text) ∧
      ∃ r input, Reader.next ⟨.exchange, {}⟩ (.ofBytes (bytesOf text) seekable chunk) =
          (.ok (some inst), r, input) ∧
        r.cursor.atEnd = true ∧ ∀ input', r.next input' = (.ok none, r, input') := by
  have hrest : (InputStream.ofBytes (bytesOf (InputStream.unlines (texts comments inst)))
      seekable chunk).source.rest = bytesOf (InputStream.unlines (texts comments inst)) := rfl
  obtain ⟨input, hdecode⟩ := h.decode comments hrest
  refine ⟨_, (emits_encode comments inst).output, ⟨.exchange, input.cursor true⟩, input, ?_, rfl,
    fun input' => rfl⟩
  rw [Reader.next, if_neg (by decide), InputFormat.decode, hdecode]
  rfl

/-- A named instance whose ids have gaps up to the highest one and are out of order, with both
kinds of domains, an auxiliary variable, fractions, numbers at the ends of the range of words, a
variable that occurs twice in a constraint, a constraint without terms, and an objective without
direction. -/
def assorted : Instance :=
  { Instance.ofVariables [⟨⟨9, by decide⟩, "x", .bool, .user⟩,
      ⟨⟨3, by decide⟩, "größe", .range (-9223372036854775808) 9223372036854775807, .user⟩,
      ⟨⟨4294967294, by decide⟩, "a1", .range (-3) 4, .auxiliary⟩] with
    name := some "round trip"
    constrs := [
      ⟨[⟨⟨mkRat 2 3, by decide⟩, ⟨3, by decide⟩⟩,
        ⟨⟨mkRat (-5) 7, by decide⟩, ⟨4294967294, by decide⟩⟩,
        ⟨⟨mkRat 2 3, by decide⟩, ⟨3, by decide⟩⟩], .ge,
        ⟨mkRat (-9223372036854775807) 2, by decide⟩⟩,
      ⟨[], .eq, 0⟩]
    objective := ⟨.unspecified, [⟨⟨mkRat (-3) 1, by decide⟩, ⟨9, by decide⟩⟩]⟩ }

/-- The exchange format can hold the example. -/
lemma storable_assorted : Storable assorted where
  toRegistered := (Instance.registered_ofVariables (by decide) (by decide)).1.replace _ _ _
  constrs_declared := by decide
  objective_declared := by decide
  domains_nonempty := by decide
  names_ne := by decide
  names_solid := by decide
  name_ne := by decide
  name_trim := by decide
  name_no_feed := by decide
  rhs_readable := by decide
  constrs_readable := by decide
  objective_readable := by decide

/-- The example survives writing with a comment and reading in chunks of three bytes. -/
theorem next_encode_assorted :
    ∃ text, ((OutputFormat.exchange true).encode assorted).output = (.ok (), text) ∧
      ∃ r input, Reader.next ⟨.exchange, {}⟩ (.ofBytes (bytesOf text) false 3) =
          (.ok (some assorted), r, input) ∧
        r.cursor.atEnd = true ∧ ∀ input', r.next input' = (.ok none, r, input') :=
  next_encode storable_assorted true false 3

example : (encode false assorted).output.2 = InputStream.unlines
    ["n round trip",
      "v 9 x b",
      "v 3 größe i -9223372036854775808 9223372036854775807",
      "v 4294967294 a1 i -3 4 aux",
      "o none -3 9",
      "k >= -9223372036854775807/2 2/3 3 -5/7 4294967294 2/3 3",
      "k = 0"] := by decide +kernel

end Exchange

end LinearInterchange
