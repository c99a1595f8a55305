import LinearInterchange.Output.Emit
import Mathlib.Data.List.Forall2
import Mathlib.Tactic.Lemma

/-!
# Emitted text

A writer that does not refuse adds a text to what was emitted before.  `Emit.Emits` says which text
that is; it is found piece by piece, along the structure of the writer.  Where only the outcome
matters, `Emit.Succeeds` leaves the text out, and `Emit.Returns` is said of the computations that
find a value without emitting anything.  `Emit.Guards` says under which condition a check finds one.
-/

namespace LinearInterchange.Emit

variable {α β : Type} {e : Emit Unit} {t u : String}

/-- The computation does not refuse and adds a text to what was emitted before. -/
def Emits (e : Emit Unit) (t : String) : Prop :=
  ∀ s, e.run.run s = (.ok (), s ++ t)

/-- From the empty text, just the text that is added is emitted. -/
lemma Emits.output (h : Emits e t) : e.output = (.ok (), t) := by
  rw [Emit.output, h, String.empty_append]

lemma emits_pure : Emits (pure ()) "" :=
  fun _ => congrArg (Prod.mk _) (String.append_empty).symm

lemma emits_text (s : String) : Emits (text s) s :=
  fun _ => rfl

lemma emits_line (s : String) : Emits (line s) (s ++ "\n") :=
  emits_text _

/-- Two writers one after another emit their texts one after another. -/
lemma Emits.bind {f : Unit → Emit Unit} (he : Emits e t) (hf : Emits (f ()) u) :
    Emits (e >>= f) (t ++ u) := by
  intro s
  rw [ExceptT.run_bind, StateT.run_bind, he s, ← String.append_assoc]
  exact hf (s ++ t)

/-- A writer for each element of a list emits their texts in order. -/
lemma emits_forM {f : α → Emit Unit} {g : α → String} {l : List α}
    (h : ∀ a ∈ l, Emits (f a) (g a)) : Emits (l.forM f) (String.join (l.map g)) := by
  induction l with
  | nil => exact emits_pure
  | cons a l ih =>
    rw [List.map_cons, String.join_cons]
    exact (h a List.mem_cons_self).bind (ih fun b hb => h b (List.mem_cons_of_mem _ hb))

/-! ## Outcomes -/

/-- The computation does not refuse. -/
def Succeeds (e : Emit Unit) : Prop :=
  ∃ t, Emits e t

/-- The computation gives a value and neither refuses nor emits anything. -/
def Returns (e : Emit α) : Prop :=
  ∃ a, e = pure a

lemma Succeeds.output (h : Succeeds e) : e.output.1 = .ok () := by
  obtain ⟨t, ht⟩ := h
  rw [ht.output]

/-- Two computations one after another succeed if both do. -/
lemma Succeeds.bind {f : Unit → Emit Unit} (he : Succeeds e) (hf : Succeeds (f ())) :
    Succeeds (e >>= f) := by
  obtain ⟨t, ht⟩ := he
  obtain ⟨u, hu⟩ := hf
  exact ⟨t ++ u, ht.bind hu⟩

/-- A computation with the value of another one succeeds if it does so with every value. -/
lemma Returns.bind {x : Emit α} {f : α → Emit Unit} (hx : Returns x) (hf : ∀ a, Succeeds (f a)) :
    Succeeds (x >>= f) := by
  obtain ⟨a, rfl⟩ := hx
  rw [pure_bind]
  exact hf a

lemma succeeds_line (s : String) : Succeeds (line s) :=
  ⟨_, emits_line s⟩

/-- Computations over a list succeed if each of them does. -/
lemma succeeds_forM {f : α → Emit Unit} {l : List α} (h : ∀ a ∈ l, Succeeds (f a)) :
    Succeeds (l.forM f) := by
  induction l with
  | nil => exact ⟨_, emits_pure⟩
  | cons a l ih =>
    exact (h a List.mem_cons_self).bind (ih fun b hb => h b (List.mem_cons_of_mem _ hb))

/-- A computation over an optional value succeeds if it does so with every value. -/
lemma succeeds_option_forM {f : α → Emit Unit} (o : Option α) (h : ∀ a, Succeeds (f a)) :
    Succeeds (o.forM f) := by
  cases o with
  | none => exact ⟨_, emits_pure⟩
  | some a => exact h a

/-- Values are found for a list if one is found for each element. -/
lemma returns_mapM {f : α → Emit β} {l : List α} (h : ∀ a ∈ l, Returns (f a)) :
    Returns (l.mapM f) := by
  induction l with
  | nil => exact ⟨[], List.mapM_nil⟩
  | cons a l ih =>
    obtain ⟨b, hb⟩ := h a List.mem_cons_self
    obtain ⟨bs, hbs⟩ := ih fun c hc => h c (List.mem_cons_of_mem _ hc)
    exact ⟨b :: bs, by rw [List.mapM_cons, hb, pure_bind, hbs, pure_bind]⟩

lemma throw_bind (err : WriteError) (f : α → Emit β) : (throw err : Emit α) >>= f = throw err := rfl

lemma output_throw (err : WriteError) : (throw err : Emit Unit).output.1 = .error err := rfl

/-! ## Checks -/

/-- The computation emits nothing.  It finds a value if the condition holds, and otherwise it
refuses. -/
def Guards (x : Emit α) (P : Prop) : Prop :=
  (P ∧ Returns x) ∨ (¬P ∧ ∃ err, x = throw err)

namespace Guards

variable {x : Emit α} {P Q : Prop}

lemma congr (h : Guards x P) (hPQ : P ↔ Q) : Guards x Q := by
  rwa [Guards, ← hPQ]

lemma pure (a : α) : Guards (Pure.pure a) True :=
  .inl ⟨True.intro, a, rfl⟩

lemma throw (err : WriteError) : Guards (MonadExcept.throw err : Emit α) False :=
  .inr ⟨id, err, rfl⟩

/-- A check whose condition holds does nothing. -/
lemma eq_pure {x : Emit Unit} (h : Guards x P) (hP : P) : x = Pure.pure () := by
  obtain ⟨-, u, hu⟩ | ⟨hnot, -⟩ := h
  · exact hu
  · exact absurd hP hnot

/-- Two checks one after another check both conditions. -/
lemma bind {f : α → Emit β} (hx : Guards x P) (hf : ∀ a, x = Pure.pure a → Guards (f a) Q) :
    Guards (x >>= f) (P ∧ Q) := by
  obtain ⟨hP, a, rfl⟩ | ⟨hP, err, rfl⟩ := hx
  · rw [pure_bind]
    exact (hf a rfl).congr ⟨fun hQ => ⟨hP, hQ⟩, And.right⟩
  · exact .inr ⟨fun h => hP h.1, err, throw_bind err f⟩

/-- A check of each element of a list checks the condition for all of them. -/
lemma forM {l : List α} {f : α → Emit Unit} {R : α → Prop} (h : ∀ a ∈ l, Guards (f a) (R a)) :
    Guards (l.forM f) (∀ a ∈ l, R a) := by
  induction l with
  | nil => exact (Guards.pure ()).congr ⟨fun _ => List.forall_mem_nil _, fun _ => True.intro⟩
  | cons a l ih =>
    refine ((h a List.mem_cons_self).bind fun _ _ => ?_).congr List.forall_mem_cons.symm
    exact ih fun b hb => h b (List.mem_cons_of_mem _ hb)

end Guards

/-- The computation emits its text if the condition holds, and otherwise it refuses and emits
nothing. -/
def Writes (e : Emit Unit) (P : Prop) : Prop :=
  (P ∧ Succeeds e) ∨ (¬P ∧ ∃ err, e = throw err)

namespace Writes

variable {P Q : Prop}

lemma congr (h : Writes e P) (hPQ : P ↔ Q) : Writes e Q := by
  rwa [Writes, ← hPQ]

/-- What comes after a check has the condition of the check as well. -/
lemma after {x : Emit α} {f : α → Emit Unit} (hx : Guards x P)
    (hf : ∀ a, x = pure a → Writes (f a) Q) : Writes (x >>= f) (P ∧ Q) := by
  obtain ⟨hP, a, rfl⟩ | ⟨hP, err, rfl⟩ := hx
  · rw [pure_bind]
    exact (hf a rfl).congr ⟨fun hQ => ⟨hP, hQ⟩, And.right⟩
  · exact .inr ⟨fun h => hP h.1, err, throw_bind err f⟩

/-- What always succeeds after a check has the condition of the check. -/
lemma of_guards {x : Emit α} {f : α → Emit Unit} (hx : Guards x P) (hf : ∀ a, Succeeds (f a)) :
    Writes (x >>= f) P := by
  obtain ⟨hP, hreturns⟩ | ⟨hP, err, rfl⟩ := hx
  · exact .inl ⟨hP, hreturns.bind hf⟩
  · exact .inr ⟨hP, err, throw_bind err f⟩

/-- The outcome tells whether the condition holds. -/
lemma output_eq_ok_iff (h : Writes e P) : e.output.1 = .ok () ↔ P := by
  obtain ⟨hP, hok⟩ | ⟨hP, err, rfl⟩ := h
  · exact ⟨fun _ => hP, fun _ => hok.output⟩
  · exact ⟨fun hok => (by cases hok), fun h => absurd h hP⟩

/-- With an error nothing is emitted. -/
lemma output_eq_empty (h : Writes e P) {err : WriteError} (herr : e.output.1 = .error err) :
    e.output.2 = "" := by
  obtain ⟨-, hok⟩ | ⟨-, err', rfl⟩ := h
  · rw [hok.output] at herr
    cases herr
  · rfl

end Writes

/-! ## What was done without a refusal -/

/-- After the text `s` the computation finds the value `a` and leaves the text `s'`. -/
def Gives (e : Emit α) (s : String) (a : α) (s' : String) : Prop :=
  e.run.run s = (.ok a, s')

variable {a : α} {b : β} {s s' : String}

lemma gives_of_output (h : e.output = (.ok (), t)) : Gives e "" () t := h

lemma Gives.of_pure {a' : α} (h : Gives (pure a') s a s') : a = a' ∧ s' = s := by
  cases h
  exact ⟨rfl, rfl⟩

lemma not_gives_throw {err : WriteError} : ¬Gives (throw err : Emit α) s a s' := by
  intro h
  cases h

/-- A line is left behind the text before it. -/
lemma Gives.of_line {w : String} {u : Unit} (h : Gives (line w) s u s') :
    s' = s ++ (w ++ "\n") := by
  cases h
  rfl

/-- Of two computations one after another, the second one goes on with what the first one finds and
leaves. -/
lemma Gives.of_bind {x : Emit α} {f : α → Emit β} (h : Gives (x >>= f) s b s') :
    ∃ a s₁, Gives x s a s₁ ∧ Gives (f a) s₁ b s' := by
  unfold Gives at h
  rw [ExceptT.run_bind, StateT.run_bind] at h
  cases hx : x.run.run s with
  | mk r s₁ =>
    rw [hx] at h
    cases r with
    | ok a => exact ⟨a, s₁, hx, h⟩
    | error err => cases h

/-- Something is done with an optional value only if it is there. -/
lemma Gives.of_option_forM {f : α → Emit Unit} {o : Option α} {u : Unit}
    (h : Gives (o.forM f) s u s') : (o = none ∧ s' = s) ∨ ∃ a, o = some a ∧ Gives (f a) s u s' := by
  cases o with
  | none => exact .inl ⟨rfl, h.of_pure.2⟩
  | some a => exact .inr ⟨a, rfl, h⟩

variable {γ : Type} {P : α → γ → Prop} {l : List α}

/-- Checks over a list that were all passed leave the text as it was. -/
lemma Gives.of_checks {f : α → Emit Unit} {Q : α → Prop} {u : Unit}
    (hf : ∀ a ∈ l, ∀ u s s', Gives (f a) s u s' → Q a ∧ s' = s) (h : Gives (l.forM f) s u s') :
    (∀ a ∈ l, Q a) ∧ s' = s := by
  induction l generalizing s with
  | nil => exact ⟨List.forall_mem_nil _, h.of_pure.2⟩
  | cons a l ih =>
    obtain ⟨v, s₁, ha, hl⟩ := Gives.of_bind (x := f a) (f := fun _ => l.forM f) h
    obtain ⟨hQ, rfl⟩ := hf a List.mem_cons_self v s s₁ ha
    obtain ⟨hall, rfl⟩ := ih (fun b hb => hf b (List.mem_cons_of_mem _ hb)) hl
    exact ⟨List.forall_mem_cons.2 ⟨hQ, hall⟩, rfl⟩

/-- What is emitted for the elements of a list is left in order, if it is known for each of them
which text that is. -/
lemma Gives.of_forM {f : α → Emit Unit} {g : γ → String} {u : Unit}
    (hf : ∀ a ∈ l, ∀ u s s', Gives (f a) s u s' → ∃ c, P a c ∧ s' = s ++ g c)
    (h : Gives (l.forM f) s u s') :
    ∃ cs : List γ, List.Forall₂ P l cs ∧ s' = s ++ String.join (cs.map g) := by
  induction l generalizing s with
  | nil => exact ⟨[], .nil, by rw [h.of_pure.2]; exact String.append_empty.symm⟩
  | cons a l ih =>
    obtain ⟨v, s₁, ha, hl⟩ := Gives.of_bind (x := f a) (f := fun _ => l.forM f) h
    obtain ⟨c, hc, rfl⟩ := hf a List.mem_cons_self v s s₁ ha
    obtain ⟨cs, hcs, rfl⟩ := ih (fun b hb => hf b (List.mem_cons_of_mem _ hb)) hl
    exact ⟨c :: cs, .cons hc hcs, by rw [List.map_cons, String.join_cons, String.append_assoc]⟩

/-- The values that are found for the elements of a list, if it is known for each of them which
value that is. -/
lemma Gives.of_mapM {f : α → Emit β} {g : γ → β} {bs : List β}
    (hf : ∀ a ∈ l, ∀ b s s', Gives (f a) s b s' → ∃ c, P a c ∧ b = g c ∧ s' = s)
    (h : Gives (l.mapM f) s bs s') :
    ∃ cs : List γ, List.Forall₂ P l cs ∧ bs = cs.map g ∧ s' = s := by
  induction l generalizing s bs with
  | nil =>
    rw [List.mapM_nil] at h
    obtain ⟨rfl, rfl⟩ := h.of_pure
    exact ⟨[], .nil, rfl, rfl⟩
  | cons a l ih =>
    rw [List.mapM_cons] at h
    obtain ⟨b, s₁, ha, h⟩ := h.of_bind
    obtain ⟨bs', s₂, hl, h⟩ := h.of_bind
    obtain ⟨rfl, rfl⟩ := h.of_pure
    obtain ⟨c, hc, rfl, rfl⟩ := hf a List.mem_cons_self b s s₁ ha
    obtain ⟨cs, hcs, rfl, rfl⟩ := ih (fun d hd => hf d (List.mem_cons_of_mem _ hd)) hl
    exact ⟨c :: cs, .cons hc hcs, rfl, rfl⟩

end LinearInterchange.Emit
