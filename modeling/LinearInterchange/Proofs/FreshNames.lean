import LinearInterchange.Proofs.Operations
import LinearInterchange.Proofs.SugarListing
import Mathlib.Order.Bounds.Defs

/-!
# Fresh names

Auxiliary variables and the objective variable of a Sugar program get their names from a loop: an
underscore is put in front of the wanted name as long as the name is taken.  Nothing in the loop
bounds it, so `RenameLoop` says what it does as a relation, for any test of what is taken: the loop
ends with a name after a number of rounds, or with none at all.  It ends exactly if one of the
candidates is free, and then with the first of them (`renameLoop_iff`).

An instance has finitely many names, and no two candidates are equal, since each is longer than the
one before.  So the loop ends, after at most as many rounds as there are names, whatever names were
declared (`renames_freshName`).  The names of auxiliary variables are therefore always new, and all
names stay different in every run of operations.
-/

namespace LinearInterchange

/-! ## The renaming loop -/

/-- The loop that puts underscores in front of a name as long as it is taken ends with a name after
a number of rounds. -/
inductive RenameLoop (isTaken : String → Bool) : String → ℕ → String → Prop
  | free {name : String} (h : isTaken name = false) : RenameLoop isTaken name 0 name
  | taken {name result : String} {rounds : ℕ} (h : isTaken name = true)
      (rest : RenameLoop isTaken ("_" ++ name) rounds result) :
      RenameLoop isTaken name (rounds + 1) result

/-- The loop turns the wanted name into one that is free by putting underscores in front of it, as
few as possible. -/
structure Renames (isTaken : String → Bool) (wanted name : String) (rounds : ℕ) : Prop where
  ends : RenameLoop isTaken wanted rounds name
  name_eq : name = underscored rounds wanted
  least : IsLeast {k | isTaken (underscored k wanted) = false} rounds

variable {isTaken : String → Bool} {taken : List String} {wanted name : String} {k : ℕ}

/-- The least number of underscores is the one before which all candidates are taken. -/
lemma isLeast_free_iff : IsLeast {k | isTaken (underscored k wanted) = false} k ↔
    isTaken (underscored k wanted) = false ∧ ∀ j < k, isTaken (underscored j wanted) = true := by
  refine and_congr_right fun _ => ⟨fun hleast j hj => ?_, fun htaken j hfree => ?_⟩
  · by_contra hne
    exact absurd (hleast (Bool.eq_false_iff.2 hne)) (Nat.not_le.2 hj)
  · by_contra hlt
    have hj : isTaken (underscored j wanted) = true := htaken j (Nat.not_le.1 hlt)
    exact Bool.eq_false_iff.1 hfree hj

/-- The loop ends with a candidate that is free, after those that are taken. -/
lemma RenameLoop.eq_underscored (h : RenameLoop isTaken wanted k name) :
    name = underscored k wanted ∧ isTaken (underscored k wanted) = false ∧
      ∀ j < k, isTaken (underscored j wanted) = true := by
  induction h with
  | @free wanted hfree => simpa using hfree
  | @taken wanted name k hfirst _ ih =>
    obtain ⟨heq, hfree, hrest⟩ := ih
    rw [underscored_succ]
    exact ⟨heq, hfree, (forall_underscored_succ_iff (isTaken · = true)).2 ⟨hfirst, hrest⟩⟩

/-- The loop passes over the candidates that are taken and ends with the first that is free. -/
lemma renameLoop_of_free (hfree : isTaken (underscored k wanted) = false)
    (htaken : ∀ j < k, isTaken (underscored j wanted) = true) :
    RenameLoop isTaken wanted k (underscored k wanted) := by
  induction k generalizing wanted with
  | zero =>
    rw [underscored_zero] at hfree ⊢
    exact .free hfree
  | succ k ih =>
    obtain ⟨hfirst, hrest⟩ := (forall_underscored_succ_iff (isTaken · = true)).1 htaken
    rw [underscored_succ] at hfree ⊢
    exact .taken hfirst (ih hfree hrest)

/-- The loop ends exactly if a candidate is free, and then with the first that is. -/
lemma renameLoop_iff : RenameLoop isTaken wanted k name ↔
    name = underscored k wanted ∧ IsLeast {k | isTaken (underscored k wanted) = false} k := by
  rw [isLeast_free_iff]
  constructor
  · exact RenameLoop.eq_underscored
  · rintro ⟨rfl, hfree, htaken⟩
    exact renameLoop_of_free hfree htaken

/-! ## Names of instances -/

/-- Among finitely many names the loop ends, and a fresh name is what it ends with. -/
lemma renames_freshName (h : ∀ name, isTaken name = true ↔ name ∈ taken) (wanted : String) :
    ∃ rounds ≤ taken.length, Renames isTaken wanted (freshName taken wanted) rounds := by
  obtain ⟨k, hk, heq, htaken⟩ := exists_freshName_eq taken wanted
  have hleast : IsLeast {k | isTaken (underscored k wanted) = false} k := by
    rw [isLeast_free_iff, ← heq, ← Bool.not_eq_true, h]
    exact ⟨freshName_not_mem taken wanted, fun j hj => (h _).2 (htaken j hj)⟩
  exact ⟨k, hk, renameLoop_iff.2 ⟨heq, hleast⟩, heq, hleast⟩

namespace Instance

variable {inst inst' : Instance}

lemma isSome_varNamed?_iff (inst : Instance) (name : String) :
    (inst.varNamed? name).isSome = true ↔ name ∈ inst.takenNames := by
  simp [varNamed?, takenNames]

/-! ## Names over a run -/

lemma takenNames_prefix_append (inst : Instance) (x : Variable) :
    inst.takenNames <+: (inst.append x).takenNames := by
  simp [takenNames, append]

/-- A change leaves the names where they are, and gives new ones to new variables only. -/
lemma Change.takenNames_prefix (h : inst.Change inst') : inst.takenNames <+: inst'.takenNames := by
  cases h with
  | refused | replaced => exact List.prefix_rfl
  | declared => exact takenNames_prefix_append ..
  | domain hs =>
    obtain rfl := setDomain_ok hs
    exact List.prefix_rfl

/-- So does a split, which is made of changes. -/
lemma WellFormed.takenNames_prefix_splitConstrs (h : inst.WellFormed) :
    inst.takenNames <+: inst.splitConstrs.1.takenNames := by
  -- that an auxiliary variable is new rests on the agreement of the records
  have hkeeps : inst.splitConstrs.1.WellFormed ∧
      inst.takenNames <+: inst.splitConstrs.1.takenNames := by
    refine keeps_splitConstrs (P := fun i => i.WellFormed ∧ inst.takenNames <+: i.takenNames)
      (fun hi hn => ⟨hi.1.newAux hn, ?_⟩) (fun hi ha => ⟨hi.1.addConstr ha, ?_⟩)
      ⟨h.takeConstrs, List.prefix_rfl⟩
    · obtain ⟨-, -, rfl⟩ := hi.1.newAux_ok hn
      exact hi.2.trans (takenNames_prefix_append ..)
    · obtain ⟨-, rfl⟩ := addConstr_ok ha
      exact hi.2
  exact hkeeps.2

lemma WellFormed.takenNames_prefix_perform (h : inst.WellFormed) (op : Operation) :
    inst.takenNames <+: (inst.perform op).1.takenNames := by
  rcases h.change_perform op with hchange | rfl
  · exact hchange.takenNames_prefix
  · exact h.takenNames_prefix_splitConstrs

lemma WellFormed.takenNames_prefix_performAll (h : inst.WellFormed) (ops : List Operation) :
    inst.takenNames <+: (inst.performAll ops).takenNames := by
  induction ops generalizing inst with
  | nil => exact List.prefix_rfl
  | cons op ops ih => exact (h.takenNames_prefix_perform op).trans (ih (h.perform op))

/-! ## Generated names -/

/-- Where an id is left, an auxiliary variable is introduced under a fresh name. -/
lemma Registered.newAux_of_le (h : inst.Registered) (d : Domain) (hid : inst.ids.used ≤ Var.maxId) :
    ∃ x : Variable, inst.newAux d = .ok (x.var, inst.append x) ∧ inst.IsNew x ∧ x.domain = d ∧
      x.name = freshName inst.takenNames ("a" ++ toString (inst.auxCount + 1)) ∧
      x.origin = .auxiliary := by
  obtain ⟨hnew, hedit⟩ := h.newAux_eq (v := ⟨inst.ids.used, hid⟩) (dif_pos hid) d
  exact ⟨_, Edit.result_eq_ok.2 hedit, hnew, rfl, rfl, rfl⟩

/-- **Generated names are new, with as few underscores as possible.**  In a well-formed instance
with an id left, the loop that names the `n`-th auxiliary variable ends, and the name is `a<n>`
behind the least number of underscores with which no variable has it; that number is no greater than
the number of variables.  After any further calls, refused ones included, the instance is well
formed, its old names stand where they stood, and all names are different.  The loop that names the
objective variable of a Sugar program ends in the same way, whatever names are taken and wanted, and
the name that it ends with is the one that is written. -/
theorem generated_names_least (inst : Instance) :
    (inst.WellFormed →
      (∀ d, inst.ids.used ≤ Var.maxId → ∃ v name rounds inst',
        inst.newAux d = .ok (v, inst') ∧
        inst'.auxCount = inst.auxCount + 1 ∧ inst'.auxCount < UInt32.size ∧
        inst'.vars = inst.vars ++ [⟨v, name, d, .auxiliary⟩] ∧
        rounds ≤ inst.vars.length ∧
        Renames inst.names.contains ("a" ++ toString inst'.auxCount) name rounds) ∧
      ∀ ops, (inst.performAll ops).WellFormed ∧ inst.names <+: (inst.performAll ops).names ∧
        (inst.performAll ops).names.Nodup) ∧
    ∀ objectiveVar, ∃ name rounds, rounds ≤ inst.takenNames.length ∧
      Renames (fun name => (inst.varNamed? name).isSome) objectiveVar name rounds ∧
      (inst.objective.terms ≠ [] → ∀ text,
        (Sugar.encode objectiveVar inst).output = (.ok (), text) →
          ∃ (p : Problem) (g : Problem.Goal) (x : Problem.Column),
            p.Shows (.sugar objectiveVar) inst ∧ text = Sugar.dialect.text (Sugar.listing p) ∧
            p.goal = some g ∧ g.column = some x ∧ x.name = name) := by
  refine ⟨fun h => ⟨fun d hid => ?_, fun ops => ?_⟩, fun objectiveVar => ?_⟩
  · obtain ⟨x, hx, hnew, rfl, hname, horigin⟩ := h.newAux_of_le d hid
    have hlength : inst.names.length = inst.vars.length := List.length_map _
    have htaken : ∀ name, inst.names.contains name = true ↔ name ∈ inst.takenNames := fun _ =>
      h.takenNames_eq ▸ List.contains_iff_mem
    obtain ⟨rounds, hrounds, hrenames⟩ :=
      renames_freshName htaken ("a" ++ toString (inst.auxCount + 1))
    rw [h.takenNames_eq, hlength] at hrounds
    have hcount : (inst.append x).auxCount = inst.auxCount + 1 := by
      rw [append, if_pos horigin]
    have hless : inst.auxCount + 1 < UInt32.size := by
      have hused := h.auxCount_le_used
      have hmax : inst.ids.used.toNat ≤ 4294967294 := UInt32.le_iff_toNat_le.1 hid
      show inst.auxCount + 1 < 4294967296
      omega
    have hvars : (inst.append x).vars = inst.vars ++ [⟨x.var, x.name, x.domain, .auxiliary⟩] := by
      rw [h.vars_append hnew, ← horigin]
    refine ⟨x.var, x.name, rounds, inst.append x, hx, hcount, hcount ▸ hless, hvars, hrounds, ?_⟩
    rw [hcount, hname]
    exact hrenames
  · have hwf := h.performAll ops
    refine ⟨hwf, ?_, hwf.nodup_names⟩
    rw [← h.takenNames_eq, ← hwf.takenNames_eq]
    exact h.takenNames_prefix_performAll ops
  · obtain ⟨rounds, hrounds, hrenames⟩ :=
      renames_freshName inst.isSome_varNamed?_iff objectiveVar
    refine ⟨_, rounds, hrounds, hrenames, fun hterms text hwritten => ?_⟩
    obtain ⟨p, hp, rfl, -⟩ := Sugar.exists_problem_of_output hwritten
    obtain ⟨g, hgoal, hg⟩ := hp.goal hterms
    obtain ⟨lo, hi, x, hx, -, hname, -⟩ := hg.column
    exact ⟨p, g, x, hp, rfl, hgoal, hx, hname⟩

/-- User variables imitate the next generated names, an auxiliary variable was restored, and the
name for the objective variable is taken. -/
theorem generated_names_least_imitated :
    let inst := run [.declare "a2" .bool, .declare "_a2" .bool,
      .restore ⟨⟨7, by decide⟩, "a1", .bool, .auxiliary⟩, .declare "_obj" .bool,
      .setObjective ⟨.minimize, [⟨.ofWord 3, ⟨0, by decide⟩⟩]⟩]
    let text := "(int a2 0 1)\n(int _a2 0 1)\n(int a1 0 1)\n(int _obj 0 1)\n(int __obj 0 3)\n"
      ++ "(= __obj (* 3 a2))\n(objective minimize __obj)\n"
    (inst.newAux .bool).toOption.map (·.2.names) = some ["a2", "_a2", "a1", "_obj", "__a2"] ∧
    (Sugar.encode "_obj" inst).output = (.ok (), text) ∧
    (∃ v name rounds inst', inst.newAux .bool = .ok (v, inst') ∧
      Renames inst.names.contains ("a" ++ toString inst'.auxCount) name rounds) ∧
    (inst.performAll [.newAux .bool, .declare "__a2" .bool, .newAux .bool]).names.Nodup ∧
    ∃ name rounds, Renames (fun name => (inst.varNamed? name).isSome) "_obj" name rounds ∧
      ∃ (p : Problem) (g : Problem.Goal) (x : Problem.Column),
        p.Shows (.sugar "_obj") inst ∧ text = Sugar.dialect.text (Sugar.listing p) ∧
        p.goal = some g ∧ g.column = some x ∧ x.name = name := by
  intro inst text
  have hwf : inst.WellFormed := wellFormed_run _
  have hwritten : (Sugar.encode "_obj" inst).output = (.ok (), text) := by decide +kernel
  obtain ⟨hgenerated, hobjective⟩ := generated_names_least inst
  obtain ⟨haux, hcalls⟩ := hgenerated hwf
  obtain ⟨v, name, rounds, inst', hnew, -, -, -, -, hrenames⟩ := haux .bool (by decide)
  obtain ⟨objectiveName, objectiveRounds, -, hobj, hprogram⟩ := hobjective "_obj"
  exact ⟨by decide +kernel, hwritten, ⟨v, name, rounds, inst', hnew, hrenames⟩, (hcalls _).2.2,
    objectiveName, objectiveRounds, hobj, hprogram (by decide) text hwritten⟩

end Instance

end LinearInterchange
