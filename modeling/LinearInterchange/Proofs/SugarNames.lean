import LinearInterchange.Proofs.NumeralReading
import LinearInterchange.Proofs.SugarListing

/-!
# Names that read as integers

An expression for Sugar is an integer, a symbol or a list in parentheses, so a name that is written
as a symbol must not read as an integer.  Names are refused if they can be read as words, and digits
can be read as a word only if they fit into one.  The names that are accepted are characterised
exactly (`isSymbol_eq_true_iff`): integers beyond the words are among them, and they are written
like any other name.  Underscores in front of a name are no part of an integer, so an objective
variable that had to be renamed never reads as one.
-/

namespace LinearInterchange.Sugar

open Text Problem

/-- The name is digits with an optional sign in front. -/
def ReadsAsInteger (name : String) : Prop :=
  ∃ z, IntegerText name.toList z

instance (name : String) : Decidable (ReadsAsInteger name) :=
  decidable_of_iff ((Decimal.readExponent? name.toList).isSome = true) <| by
    simp only [Option.isSome_iff_exists, Decimal.readExponent?_eq_some_iff, ReadsAsInteger]

/-- The name is a run of characters other than white space and those that end a symbol, and it does
not denote an integer in the range of words. -/
structure IsAcceptable (name : String) : Prop extends IsSymbol name where
  not_word : ∀ z, IntegerText name.toList z → ¬FitsWord z

variable {name : String}

/-- A text cannot be read as a word just if it denotes none. -/
lemma isNone_readWord_iff {cs : List Char} :
    (readWord cs).toOption.isNone = true ↔ ∀ z, IntegerText cs z → ¬FitsWord z := by
  cases hread : readWord cs with
  | error e =>
    refine iff_of_true rfl fun z hz hfits => ?_
    obtain ⟨w, -, hw⟩ := hz.exists_word hfits
    rw [hread] at hw
    cases hw
  | ok w =>
    refine iff_of_false Bool.false_ne_true fun hnone => ?_
    exact hnone w.toInt (readWord_eq_ok_iff.1 hread) (fitsWord_toInt w)

/-- A name is accepted as a symbol exactly if it is acceptable. -/
lemma isSymbol_eq_true_iff : isSymbol name = true ↔ IsAcceptable name := by
  constructor
  · intro h
    have hsymbol := isSymbol_of_eq_true h
    rw [isSymbol, Bool.and_eq_true] at h
    exact ⟨hsymbol, isNone_readWord_iff.1 h.2⟩
  · rintro ⟨⟨hne, hchars, -⟩, hword⟩
    rw [isSymbol, Bool.and_eq_true, Bool.and_eq_true]
    refine ⟨⟨?_, ?_⟩, isNone_readWord_iff.2 hword⟩
    · rw [Bool.not_eq_true', String.isEmpty_eq_false_iff]
      rintro rfl
      exact hne rfl
    · rw [Bool.not_eq_true', List.any_eq_false]
      intro c hc
      simpa [isSymbolChar, and_assoc] using hchars c hc

/-- A text with an underscore in it does not read as an integer. -/
lemma not_readsAsInteger (h : '_' ∈ name.toList) : ¬ReadsAsInteger name := by
  rintro ⟨z, hz⟩
  rcases hz.mem h with hdigit | hsign | hsign
  · exact absurd hdigit (by decide)
  · exact absurd hsign (by decide)
  · exact absurd hsign (by decide)

lemma freshName_of_notMem {taken : List String} (h : name ∉ taken) :
    freshName taken name = name := by
  rw [freshName, if_neg h]

/-- A name that is taken gets an underscore. -/
lemma underscore_mem_freshName {taken : List String} (h : name ∈ taken) :
    '_' ∈ (freshName taken name).toList := by
  obtain ⟨k, hk⟩ := freshName_eq_underscores taken name
  cases k with
  | zero =>
    have hsame : freshName taken name = name := String.toList_injective hk
    have hnew := freshName_not_mem taken name
    rw [hsame] at hnew
    exact absurd h hnew
  | succ k =>
    rw [hk, List.replicate_succ]
    exact List.mem_cons_self

/-- The new name for an acceptable one is acceptable. -/
lemma IsAcceptable.freshName (h : IsAcceptable name) (taken : List String) :
    IsAcceptable (freshName taken name) := by
  by_cases hmem : name ∈ taken
  · obtain ⟨k, hk⟩ := freshName_eq_underscores taken name
    have hunderscore := not_readsAsInteger (underscore_mem_freshName hmem)
    exact ⟨h.underscores hk, fun z hz => absurd ⟨z, hz⟩ hunderscore⟩
  · rwa [freshName_of_notMem hmem]

/-- A new name reads as an integer just if it is the wanted one and that does. -/
lemma readsAsInteger_freshName_iff {taken : List String} :
    ReadsAsInteger (freshName taken name) ↔ name ∉ taken ∧ ReadsAsInteger name := by
  by_cases hmem : name ∈ taken
  · have hunderscore := not_readsAsInteger (underscore_mem_freshName hmem)
    exact iff_of_false hunderscore fun h => h.1 hmem
  · rw [freshName_of_notMem hmem, and_iff_right hmem]

/-- **Which names are written for Sugar.**  A name is accepted exactly if it is a run of characters
other than white space, parentheses, semicolons and double quotes, and denotes no integer in the
range of words.  If an instance whose records of the variables agree, as they do after any calls, is
written, then all names in the program are acceptable in this sense, with any name for the objective
variable that the options can give.  So none of them reads as an integer just if the name of no
variable does, and neither does the wanted name for the objective variable, unless there is no
objective or that name is taken. -/
theorem written_names_acceptable {opts : Options} {objectiveVar text : String} {inst : Instance}
    (hinst : inst.Coherent) (hopts : objectiveVarOf opts = .ok objectiveVar)
    (hwritten : (encode objectiveVar inst).output = (.ok (), text)) :
    (∀ name, isSymbol name = true ↔ IsAcceptable name) ∧
    ∃ p : Problem, p.Shows (.sugar objectiveVar) inst ∧ dialect.text (listing p) = text ∧
      (∀ s ∈ (listing p).statements, ∀ name ∈ s.names, IsAcceptable name) ∧
      ((∀ s ∈ (listing p).statements, ∀ name ∈ s.names, ¬ReadsAsInteger name) ↔
        (∀ name ∈ inst.names, ¬ReadsAsInteger name) ∧
          (inst.objective.terms ≠ [] → objectiveVar ∉ inst.names →
            ¬ReadsAsInteger objectiveVar)) := by
  obtain ⟨p, hp, htext, hnames⟩ := exists_problem_of_output hwritten
  have hvar := isSymbol_eq_true_iff.1 (isSymbol_of_objectiveVarOf hopts)
  refine ⟨fun _ => isSymbol_eq_true_iff, p, hp, htext,
    (forall_names_listing_iff hinst hp).2 ⟨?_, ?_⟩, ?_⟩
  · exact fun name hname => isSymbol_eq_true_iff.1 (hnames name hname)
  · exact fun _ => hvar.freshName inst.takenNames
  · rw [forall_names_listing_iff hinst hp, readsAsInteger_freshName_iff, not_and,
      hinst.takenNames_eq]

/-- A sign alone is a name, and the wanted name for the objective variable is taken. -/
theorem written_names_acceptable_sign :
    let x : Var := ⟨0, by decide⟩
    let y : Var := ⟨1, by decide⟩
    let opts : Options := .ofList [("objective_var", "total")]
    let inst : Instance :=
      { Instance.ofVariables [⟨x, "total", .bool, .user⟩, ⟨y, "-", .range (-2) 2, .user⟩] with
        objective := ⟨.minimize, [⟨.ofWord 3, x⟩, ⟨.ofWord (-1), y⟩]⟩ }
    let goal := "(int _total -2 5)\n(= _total (+ (* 3 total) (* -1 -)))\n"
      ++ "(objective minimize _total)\n"
    let text := "(int total 0 1)\n(int - -2 2)\n" ++ goal
    objectiveVarOf opts = .ok "total" ∧ (encode "total" inst).output = (.ok (), text) ∧
      ∃ p : Problem, p.Shows (.sugar "total") inst ∧ dialect.text (listing p) = text ∧
        (∀ s ∈ (listing p).statements, ∀ name ∈ s.names, IsAcceptable name) ∧
        ∀ s ∈ (listing p).statements, ∀ name ∈ s.names, ¬ReadsAsInteger name := by
  intro x y opts inst goal text
  have hopts : objectiveVarOf opts = .ok "total" := by decide +kernel
  have hwritten : (encode "total" inst).output = (.ok (), text) := by decide +kernel
  have hinst : inst.Registered :=
    (Instance.registered_ofVariables (by decide) (by decide)).1.replace _ _ _
  obtain ⟨-, p, hp, htext, hnames, hintegers⟩ :=
    written_names_acceptable hinst.toCoherent hopts hwritten
  exact ⟨hopts, hwritten, p, hp, htext, hnames, hintegers.2 (by decide +kernel)⟩

/-- A variable whose name is one above the greatest word is accepted and written, and the integer
one below the least word is accepted as the name for the objective variable. -/
theorem writes_integer_beyond_words :
    let x : Var := ⟨0, by decide⟩
    let inst := Instance.ofVariables [⟨x, "9223372036854775808", .bool, .user⟩]
    objectiveVarOf (.ofList []) = .ok "_obj" ∧
      (encode "_obj" inst).output = (.ok (), "(int 9223372036854775808 0 1)\n") ∧
      ReadsAsInteger "9223372036854775808" ∧
      objectiveVarOf (.ofList [("objective_var", "-9223372036854775809")]) =
        .ok "-9223372036854775809" ∧
      ReadsAsInteger "-9223372036854775809" := by
  decide +kernel

end LinearInterchange.Sugar
