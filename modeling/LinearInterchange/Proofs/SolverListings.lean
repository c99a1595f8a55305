import LinearInterchange.Proofs.ClingconListing
import LinearInterchange.Proofs.FactsListing
import LinearInterchange.Proofs.Outcome
import LinearInterchange.Proofs.SugarListing

/-!
# Solvers are told the problem of the instance

What is written for a solver can be read back.  The text of an accepted instance is the listing of a
problem in the language of the format, that problem is the one of the instance, and the text states
no other problem.  The grammars are those of the modules on listings, which do not refer to the
writers.  In particular a quoted name ends at its closing quote, since all quotes within it are
escaped.
-/

namespace LinearInterchange

namespace OutputFormat

variable {inst : Instance} {text : String}

/-- A text states a problem in the language of a format for solvers. -/
def Says (f : OutputFormat) (text : String) (p : Problem) : Prop :=
  match f with
  | .sugar _ => Sugar.dialect.Says text p
  | .facts => Asp.Facts.dialect.Says text p
  | .clingcon _ => Asp.Clingcon.dialect.Says text p
  | .exchange _ => False

/-- The problem that is read from a text in the language of a format for solvers. -/
def readProblem? (f : OutputFormat) (text : String) : Option Problem :=
  match f with
  | .sugar _ => Sugar.dialect.readProblem? text
  | .facts => Asp.Facts.dialect.readProblem? text
  | .clingcon _ => Asp.Clingcon.dialect.readProblem? text
  | .exchange _ => none

/-- A direction that is read is known. -/
lemma ne_unspecified_of_read {word : String} {d : Direction} (h : Direction.read word = .ok d) :
    d ≠ .unspecified := by
  unfold Direction.read at h
  dsimp only at h
  split at h
  · cases h
    decide
  · split at h
    · cases h
      decide
    · cases h

/-- A direction among the options is known. -/
lemma ne_unspecified_of_getDirection {opts : Options} {key : String} {d : Option Direction}
    (h : opts.getDirection key = .ok d) : d.getD .minimize ≠ .unspecified := by
  unfold Options.getDirection Options.getWith at h
  split at h
  · cases h
    decide
  next =>
    split at h
    next direction hread =>
      cases h
      exact ne_unspecified_of_read (mapError_eq_ok.1 hread)
    next => cases h

/-- The formats for solvers as they can be configured: the default direction is known, and the name
for the objective variable is a symbol. -/
lemma configure_eq_ok {kind : WriterKind} {opts : Options} {f : OutputFormat}
    (h : kind.configure opts = .ok f) (hkind : kind ≠ .exchange) :
    f = .facts ∨ (∃ fallback, f = .clingcon fallback ∧ fallback ≠ .unspecified) ∨
      ∃ objectiveVar, f = .sugar objectiveVar ∧ Sugar.IsSymbol objectiveVar := by
  cases kind with
  | facts =>
    obtain ⟨_, -, rfl⟩ := map_eq_ok.1 h
    exact .inl rfl
  | clingcon =>
    obtain ⟨_, -, h⟩ := bind_eq_ok.1 h
    obtain ⟨d, hd, h⟩ := bind_eq_ok.1 h
    cases h
    exact .inr (.inl ⟨_, rfl, ne_unspecified_of_getDirection hd⟩)
  | sugar =>
    obtain ⟨objectiveVar, hvar, rfl⟩ := map_eq_ok.1 h
    have hsymbol := Sugar.isSymbol_of_objectiveVarOf hvar
    exact .inr (.inr ⟨objectiveVar, rfl, Sugar.isSymbol_of_eq_true hsymbol⟩)
  | exchange => exact absurd rfl hkind

/-- **Solvers are told the problem of the instance.**  A quoted name is read back whatever follows
it, and its closing quote is the first one that is not escaped.  If an instance whose name is a
single line and whose records of the variables agree, as they do after any calls, is written for
Sugar, as facts or for clingcon, then the text is read as the problem of the instance: its name, its
variables with their bounds, its constraints with their relations, right-hand sides and merged
terms, and its objective in the direction that is resolved for it, all of them in order.  The text
states no other problem. -/
theorem output_states_problem :
    (∀ name : String, ∃ body : List Char, (Asp.quoted name).toList = '"' :: body ++ ['"'] ∧
      (∀ rest, Asp.unescape (body ++ '"' :: rest) = some (name.toList, rest)) ∧
      Asp.endsInEscape body = false ∧
      ∀ before rest, body = before ++ '"' :: rest → Asp.endsInEscape before = true) ∧
    ∀ {kind : WriterKind} {opts : Options} {f : OutputFormat}, kind.configure opts = .ok f →
      kind ≠ .exchange → ∀ {inst : Instance}, inst.Coherent →
      (∀ name ∈ inst.name, '\n' ∉ name.toList) → ∀ {text : String},
      (f.encode inst).output = (.ok (), text) →
      ∃ p : Problem, p.Shows f inst ∧ f.readProblem? text = some p ∧
        ∀ q, f.Says text q ↔ q = p := by
  refine ⟨fun name => ⟨Asp.escape name.toList, String.toList_ofList,
    fun rest => Asp.unescape_escape _ rest, Asp.endsInEscape_escape _,
    fun _ _ h => Asp.endsInEscape_of_escape_eq h⟩, ?_⟩
  intro kind opts f hconfigure hkind inst hinst hname text houtput
  rcases configure_eq_ok hconfigure hkind with
    rfl | ⟨fallback, rfl, hfallback⟩ | ⟨objectiveVar, rfl, hvar⟩
  · obtain ⟨p, hp, rfl⟩ := Asp.Facts.exists_problem_of_output houtput
    have hlisting := Asp.Facts.isListing_listing (p := p) (hp.name_eq ▸ hname)
    have hproblem := Asp.Facts.problem_listing fun g hg => (hp.of_goal hg).column
    exact ⟨p, hp, Dialect.says_text_iff hlisting hproblem⟩
  · obtain ⟨p, hp, rfl⟩ := Asp.Clingcon.exists_problem_of_output hfallback houtput
    have hlisting := Asp.Clingcon.isListing_listing (p := p) (hp.name_eq ▸ hname)
    have hproblem := Asp.Clingcon.problem_listing fun g hg => (hp.of_goal hg).column
    exact ⟨p, hp, Dialect.says_text_iff hlisting hproblem⟩
  · obtain ⟨p, hp, rfl, hvars⟩ := Sugar.exists_problem_of_output houtput
    have hlisting := Sugar.isListing_listing hinst hp (hp.name_eq ▸ hname) hvar
      fun name hmem => Sugar.isSymbol_of_eq_true (hvars name hmem)
    have hproblem := Sugar.problem_listing fun g hg => by
      obtain ⟨lo, hi, x, hx, -, hfresh, -⟩ := (hp.of_goal hg).column
      refine ⟨x, hx, fun y hy hyx => ?_⟩
      -- the objective variable is none of the declared ones
      rw [hp.columns_eq, List.mem_map] at hy
      obtain ⟨z, hz, rfl⟩ := hy
      have hmem : z.name ∈ inst.takenNames := hinst.takenNames_eq ▸ List.mem_map_of_mem hz
      exact freshName_not_mem inst.takenNames objectiveVar (hfresh ▸ hyx ▸ hmem)
    exact ⟨p, hp, Dialect.says_text_iff hlisting hproblem⟩

/-- An instance for clingcon whose objective has no direction of its own.  One of its names needs
escapes and another one is not a single line; a variable appears twice in a constraint. -/
theorem output_states_problem_escaped :
    let opts : Options := .ofList [("default_direction", "max")]
    let x : Var := ⟨0, by decide⟩
    let y : Var := ⟨1, by decide⟩
    let inst : Instance :=
      { Instance.ofVariables [⟨x, "a\"b\\", .range (-3) 4, .user⟩, ⟨y, "c\n.", .bool, .user⟩] with
        name := some "100 % \"integer\""
        constrs := [⟨[⟨.ofWord 2, x⟩, ⟨.ofWord 7, y⟩, ⟨.ofWord (-5), x⟩], .ge, .ofWord (-2)⟩]
        objective := ⟨.unspecified, [⟨1, y⟩]⟩ }
    let text := "% 100 % \"integer\"\n&dom\x7b-3..4\x7d = \"a\\\"b\\\\\".\n"
      ++ "&dom\x7b0..1\x7d = \"c\n.\".\n"
      ++ "&sum\x7b -3*\"a\\\"b\\\\\"; 7*\"c\n.\" \x7d >= -2.\n&maximize\x7b 1*\"c\n.\" \x7d.\n"
    WriterKind.clingcon.configure opts = .ok (.clingcon .maximize) ∧
      (OutputFormat.encode (.clingcon .maximize) inst).output = (.ok (), text) ∧
      ∃ p : Problem, p.Shows (.clingcon .maximize) inst ∧
        readProblem? (.clingcon .maximize) text = some p ∧
        ∀ q, Says (.clingcon .maximize) text q ↔ q = p := by
  intro opts x y inst text
  have hconfigure : WriterKind.clingcon.configure opts = .ok (.clingcon .maximize) := by
    decide +kernel
  have houtput : (OutputFormat.encode (.clingcon .maximize) inst).output = (.ok (), text) := by
    decide +kernel
  have hinst : inst.Registered :=
    (Instance.registered_ofVariables (by decide) (by decide)).1.replace _ _ _
  exact ⟨hconfigure, houtput,
    output_states_problem.2 hconfigure (by decide) hinst.toCoherent (by decide) houtput⟩

end OutputFormat

end LinearInterchange
