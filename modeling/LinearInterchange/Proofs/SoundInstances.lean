import LinearInterchange.Input.Number
import LinearInterchange.Proofs.Arithmetic
import LinearInterchange.Proofs.Declarations
import LinearInterchange.Proofs.Words

/-!
# Sound instances and founded refusals

Readers promise two things.  An instance that they return is sound: it is well formed, its domains
hold values, and its names can be told from the text around them.  An error that they return is
founded: it tells of a line of the input or of a failure of the system, and never that something
which the reader takes for granted did not hold.

Each operation on instances keeps them sound, so a proof about a reader only has to look at the
names and the domains that the reader hands over.
-/

namespace LinearInterchange

/-! ## Instances -/

namespace Instance

variable {inst inst' : Instance}

/-- The instance is well formed, its domains hold values, its variables are named by words, and its
own name can stand behind a keyword. -/
structure Sound (inst : Instance) : Prop extends inst.WellFormed where
  /-- Domains hold a value. -/
  domains_nonempty : ∀ x ∈ inst.vars, x.domain.Nonempty
  /-- The names of variables are words. -/
  words : ∀ x ∈ inst.vars, IsWord x.name.toList
  /-- The name of the instance can stand behind a keyword. -/
  title : ∀ n ∈ inst.name, IsTitle n.toList

/-- An instance without variables and constraints is sound if its name is. -/
lemma sound_empty {name : Option String} (h : ∀ n ∈ name, IsTitle n.toList) :
    Sound { name } where
  toWellFormed := wellFormed_empty.replace (by simp) wellFormed_empty.objective_declared
  domains_nonempty := List.forall_mem_nil _
  words := List.forall_mem_nil _
  title := h

/-- A new variable that is appended keeps an instance sound if its name is a word and its domain
holds a value. -/
lemma Sound.append (h : inst.Sound) {x : Variable} (hx : inst.IsNew x)
    (hword : IsWord x.name.toList) (hdomain : x.domain.Nonempty) : (inst.append x).Sound := by
  refine { h.toWellFormed.append hx with domains_nonempty := ?_, words := ?_, title := h.title }
  · rw [h.vars_append hx, List.forall_mem_append, List.forall_mem_singleton]
    exact ⟨h.domains_nonempty, hdomain⟩
  · rw [h.vars_append hx, List.forall_mem_append, List.forall_mem_singleton]
    exact ⟨h.words, hword⟩

/-- A declaration of a word with a domain that holds a value keeps an instance sound. -/
lemma Sound.declare (h : inst.Sound) {name : String} {d : Domain} (hword : IsWord name.toList)
    (hdomain : d.Nonempty) :
    Settles (fun _ => True) (fun r => r.2.Sound) (inst.declare name d) := by
  refine .of_forall_ok fun ⟨v, inst'⟩ hd => ?_
  obtain ⟨-, hnew, rfl⟩ := h.declare_ok hd
  exact h.append hnew hword hdomain

/-- A declaration with an id keeps an instance sound if the name is a word and the domain holds a
value. -/
lemma Sound.declareWithId (h : inst.Sound) (v : Var) {name : String} {d : Domain}
    (hword : IsWord name.toList) (hdomain : d.Nonempty) :
    Settles (fun _ => True) Sound (inst.declareWithId v name d) := by
  refine .of_forall_ok fun inst' hd => ?_
  obtain ⟨hnew, rfl⟩ := declareWithId_ok hd
  exact h.append hnew hword hdomain

/-- Restoring a variable keeps an instance sound if its name is a word and its domain holds a
value. -/
lemma Sound.restore (h : inst.Sound) {x : Variable} (hword : IsWord x.name.toList)
    (hdomain : x.domain.Nonempty) : Settles (fun _ => True) Sound (inst.restore x) := by
  refine .of_forall_ok fun inst' hr => ?_
  obtain ⟨hnew, rfl⟩ := restore_ok hr
  exact h.append hnew hword hdomain

/-- Adding a constraint keeps an instance sound. -/
lemma Sound.addConstr (h : inst.Sound) (c : LinConstraint) :
    Settles (fun _ => True) Sound (inst.addConstr c) := by
  refine .of_forall_ok fun inst' ha => ?_
  obtain ⟨-, hinst⟩ := addConstr_ok ha
  have hwell := h.toWellFormed.addConstr ha
  subst hinst
  exact { hwell with domains_nonempty := h.domains_nonempty, words := h.words, title := h.title }

/-- Setting the objective keeps an instance sound. -/
lemma Sound.setObjective (h : inst.Sound) (o : Objective) :
    Settles (fun _ => True) Sound (inst.setObjective o) := by
  refine .of_forall_ok fun inst' hs => ?_
  obtain ⟨-, hinst⟩ := setObjective_ok hs
  have hwell := h.toWellFormed.setObjective hs
  subst hinst
  exact { hwell with domains_nonempty := h.domains_nonempty, words := h.words, title := h.title }

/-- Naming an instance keeps it sound if the name can stand behind a keyword. -/
lemma Sound.setName (h : inst.Sound) {name : String} (htitle : IsTitle name.toList) :
    (inst.setName name).Sound := by
  have hwell : (inst.setName name).WellFormed := h.replace h.constrs_declared h.objective_declared
  refine { hwell with
    domains_nonempty := h.domains_nonempty, words := h.words, title := ?_ }
  rintro n ⟨⟩
  exact htitle

end Instance

lemma Domain.nonempty_bool : Domain.bool.Nonempty := by
  decide

/-- A range that is a domain holds a value. -/
lemma Domain.ofBounds_settles (lb ub : Int64) :
    Settles (fun _ => True) Domain.Nonempty (ofBounds lb ub) := by
  refine .of_forall_ok fun d hd => ?_
  obtain ⟨rfl, hle⟩ := ofBounds_ok hd
  exact hle

/-! ## Errors -/

/-- The reader refuses what it has read: everything that it takes for granted holds. -/
def Refusal.IsOrdinary (r : Refusal) : Prop :=
  ∀ a, r ≠ .defect a

/-- The error is a failure of the system, or it refuses what stands on one of the lines. -/
def ReadError.IsFounded : ReadError → Prop
  | .refused pos refusal => 1 ≤ pos.line ∧ refusal.IsOrdinary
  | .system _ => True

/-- The error refuses what stands on one of the lines. -/
def ReadError.IsRefusal : ReadError → Prop
  | .refused pos refusal => 1 ≤ pos.line ∧ refusal.IsOrdinary
  | .system _ => False

/-- What refuses a line is founded. -/
lemma ReadError.IsRefusal.isFounded {e : ReadError} (h : e.IsRefusal) : e.IsFounded := by
  cases e with
  | refused pos refusal => exact h
  | system fault => exact h.elim

/-- What is refused on a line refuses it if the refusal is ordinary. -/
lemma Settles.report {ε α : Type} {P : α → Prop} {x : Except ε α} {refusal : ε → Refusal}
    {pos : Position} (h : Settles (fun e => (refusal e).IsOrdinary) P x) (hpos : 1 ≤ pos.line) :
    Settles ReadError.IsRefusal P (pos.report refusal x) :=
  h.mapError fun _ he => ⟨hpos, he⟩

lemma isOrdinary_number (token : List Char) (fault : NumberFault) :
    (fault.refusal token).IsOrdinary := by
  cases fault <;> rintro a ⟨⟩

end LinearInterchange
