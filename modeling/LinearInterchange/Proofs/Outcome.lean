import Mathlib.Data.List.Forall2
import Mathlib.Tactic.Lemma

/-!
# Computations that may fail

Most computations of this project may fail.  The lemmas below take a computation that succeeded
apart into the parts that succeeded, and trace the error of one that failed to the part that failed,
so that proofs do not have to go through the cases of each part.
-/

namespace LinearInterchange

variable {ε ε' α β : Type}

/-! ## Success -/

lemma bind_eq_ok {x : Except ε α} {f : α → Except ε β} {b : β} :
    (x >>= f) = .ok b ↔ ∃ a, x = .ok a ∧ f a = .ok b := by
  cases x with
  | error e => simp [bind, Except.bind]
  | ok a => simp [bind, Except.bind]

lemma map_eq_ok {x : Except ε α} {f : α → β} {b : β} :
    x.map f = .ok b ↔ ∃ a, x = .ok a ∧ f a = b := by
  cases x with
  | error e => simp [Except.map]
  | ok a => simp [Except.map]

lemma mapError_eq_ok {x : Except ε α} {f : ε → ε'} {a : α} :
    x.mapError f = .ok a ↔ x = .ok a := by
  cases x with
  | error e => simp [Except.mapError]
  | ok a => simp [Except.mapError]

/-- A computation that succeeds on each element of a list gives one result for each. -/
lemma mapM_eq_ok {f : α → Except ε β} {l : List α} {r : List β} :
    l.mapM f = .ok r ↔ List.Forall₂ (fun a b => f a = .ok b) l r := by
  induction l generalizing r with
  | nil => simp [pure, Except.pure, eq_comm]
  | cons a l ih =>
    rw [List.mapM_cons, bind_eq_ok]
    constructor
    · rintro ⟨b, hb, h⟩
      obtain ⟨bs, hbs, h⟩ := bind_eq_ok.1 h
      cases h
      exact .cons hb (ih.1 hbs)
    · intro h
      cases h with
      | cons hb hbs => exact ⟨_, hb, bind_eq_ok.2 ⟨_, ih.2 hbs, rfl⟩⟩

/-- A computation whose outcome has a value has come to it. -/
lemma exists_eq_ok_some {x : Except ε (Option α)} (h : x.toOption.join.isSome = true) :
    ∃ a, x = .ok (some a) := by
  cases x with
  | error e => cases h
  | ok o =>
    obtain ⟨a, rfl⟩ := Option.isSome_iff_exists.1 h
    exact ⟨a, rfl⟩

/-- A computation of whose value something is seen has a value. -/
lemma exists_eq_ok_of_map {x : Except ε α} {f : α → β} {b : β}
    (h : x.toOption.map f = some b) : ∃ a, x = .ok a ∧ f a = b := by
  cases x with
  | error e => cases h
  | ok a => exact ⟨a, rfl, Option.some.inj h⟩

/-! ## Failure -/

lemma bind_eq_error {x : Except ε α} {f : α → Except ε β} {e : ε} :
    (x >>= f) = .error e ↔ x = .error e ∨ ∃ a, x = .ok a ∧ f a = .error e := by
  cases x with
  | error e' => simp [bind, Except.bind]
  | ok a => simp [bind, Except.bind]

lemma map_eq_error {x : Except ε α} {f : α → β} {e : ε} :
    x.map f = .error e ↔ x = .error e := by
  cases x with
  | error e' => simp [Except.map]
  | ok a => simp [Except.map]

lemma mapError_eq_error {x : Except ε α} {f : ε → ε'} {e' : ε'} :
    x.mapError f = .error e' ↔ ∃ e, x = .error e ∧ f e = e' := by
  cases x with
  | error e => simp [Except.mapError]
  | ok a => simp [Except.mapError]

/-! ## Both endings -/

/-- The computation gives a value with `P`, or it fails with an error with `E`. -/
def Settles (E : ε → Prop) (P : α → Prop) : Except ε α → Prop
  | .ok a => P a
  | .error e => E e

namespace Settles

variable {E : ε → Prop} {E' : ε' → Prop} {P : α → Prop} {Q : β → Prop} {x : Except ε α}

/-- Something is said of the values of a computation and nothing of its errors. -/
lemma of_forall_ok (h : ∀ a, x = .ok a → P a) : Settles (fun _ => True) P x := by
  cases x with
  | error e => exact True.intro
  | ok a => exact h a rfl

lemma trivial (x : Except ε α) : Settles (fun _ => True) (fun _ => True) x :=
  of_forall_ok fun _ _ => True.intro

lemma imp {F : ε → Prop} {R : α → Prop} (h : Settles E P x) (herror : ∀ e, E e → F e)
    (hok : ∀ a, P a → R a) : Settles F R x := by
  cases x with
  | error e => exact herror e h
  | ok a => exact hok a h

lemma mono {R : α → Prop} (h : Settles E P x) (hok : ∀ a, P a → R a) : Settles E R x :=
  h.imp (fun _ he => he) hok

/-- A sequence of two computations ends as its parts do. -/
lemma bind {f : α → Except ε β} (hx : Settles E P x) (hf : ∀ a, P a → Settles E Q (f a)) :
    Settles E Q (x >>= f) := by
  cases x with
  | error e => exact hx
  | ok a => exact hf a hx

/-- What is computed first does not matter if what comes after it has a value of the kind anyway. -/
lemma after {f : α → Except ε β} (hf : ∀ a, Settles (fun _ => True) Q (f a)) :
    Settles (fun _ => True) Q (x >>= f) :=
  bind (trivial x) fun a _ => hf a

lemma map {f : α → β} (hx : Settles E P x) (hf : ∀ a, P a → Q (f a)) : Settles E Q (x.map f) := by
  cases x with
  | error e => exact hx
  | ok a => exact hf a hx

lemma mapError {f : ε → ε'} (hx : Settles E P x) (hf : ∀ e, E e → E' (f e)) :
    Settles E' P (x.mapError f) := by
  cases x with
  | error e => exact hf e hx
  | ok a => exact hx

/-- What one step of a fold preserves is preserved by the fold. -/
lemma foldlM {f : β → α → Except ε β} {l : List α} {b : β} (hb : Q b)
    (hstep : ∀ a ∈ l, ∀ b, Q b → Settles E Q (f b a)) : Settles E Q (l.foldlM f b) := by
  induction l generalizing b with
  | nil => exact hb
  | cons a l ih =>
    rw [List.foldlM_cons]
    refine bind (hstep a List.mem_cons_self b hb) fun b' hb' => ?_
    exact ih hb' fun a' ha' => hstep a' (List.mem_cons_of_mem _ ha')

/-- What holds of each result holds of all results. -/
lemma mapM {f : α → Except ε β} {l : List α} (hf : ∀ a ∈ l, Settles E Q (f a)) :
    Settles E (fun r => ∀ b ∈ r, Q b) (l.mapM f) := by
  induction l with
  | nil => exact List.forall_mem_nil _
  | cons a l ih =>
    rw [List.mapM_cons]
    refine bind (hf a List.mem_cons_self) fun b hb => ?_
    refine bind (ih fun a' ha' => hf a' (List.mem_cons_of_mem _ ha')) fun r hr => ?_
    exact List.forall_mem_cons.2 ⟨hb, hr⟩

lemma exists_ok (h : Settles (fun _ => False) P x) : ∃ a, x = .ok a ∧ P a := by
  cases x with
  | error e => exact h.elim
  | ok a => exact ⟨a, rfl, h⟩

lemma of_ok {a : α} (h : Settles E P x) (hx : x = .ok a) : P a := by
  rw [hx] at h
  exact h

lemma of_error {e : ε} (h : Settles E P x) (hx : x = .error e) : E e := by
  rw [hx] at h
  exact h

end Settles

end LinearInterchange
