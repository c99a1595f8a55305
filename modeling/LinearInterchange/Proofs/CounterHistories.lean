import LinearInterchange.Proofs.Declarations

/-!
# Histories of counters

A counter of ids is asked for the next id, told that an id is used, or told which id is the next
free one.  The history of a sequence of such requests lists what was answered to each of them and
where the counter stood before and after.

What one request does is said once, in numbers that do not wrap around (`Step`): a new id moves the
counter up by one, and the two other requests take a maximum.  The highest id is one less than the
highest 32-bit word, so its successor still is such a word, and only there the ids run out.  A
counter therefore only moves up over a history (`used_le_of_mem_history`), and every id that is
handed out is above all those that were handed out or marked before.
-/

namespace LinearInterchange

namespace IdCounter

/-! ## Requests and answers -/

/-- What a counter is asked for or told. -/
inductive Request where
  /-- The next id is asked for. -/
  | new
  /-- A variable is used. -/
  | mark (v : Var)
  /-- A variable is the next free one. -/
  | raise (v : Var)
  deriving DecidableEq

/-- What a counter answers. -/
inductive Reply where
  /-- A variable that was not in use. -/
  | handedOut (v : Var)
  /-- No id is left. -/
  | exhausted
  /-- Whether the counter had to move. -/
  | moved (moved : Bool)
  deriving DecidableEq

/-- The counter moves along with such an answer. -/
def Reply.tellsMove : Reply → Bool
  | handedOut _ => true
  | exhausted => false
  | moved b => b

/-- The answer to a request, and the counter afterwards. -/
def answer (c : IdCounter) : Request → Reply × IdCounter
  | .new => (c.newVar.1.elim .exhausted .handedOut, c.newVar.2)
  | .mark v => (.moved (c.mark v).1, (c.mark v).2)
  | .raise v => (.moved (c.raise v.id).1, (c.raise v.id).2)

/-- A request that was answered. -/
structure Event where
  before : IdCounter
  request : Request
  reply : Reply
  after : IdCounter
  deriving DecidableEq

/-- The requests with their answers, in order. -/
def history (c : IdCounter) : List Request → List Event
  | [] => []
  | r :: rs => ⟨c, r, (c.answer r).1, (c.answer r).2⟩ :: (c.answer r).2.history rs

/-- The counter after all requests are answered. -/
def after (c : IdCounter) (rs : List Request) : IdCounter :=
  rs.foldl (fun c r => (c.answer r).2) c

variable {c c' : IdCounter} {r : Request} {rs : List Request} {reply : Reply}

/-! ## One request -/

/-- The effect of a request on the number of ids in use. -/
inductive Step (c c' : IdCounter) : Request → Reply → Prop
  | handOut (v : Var) (at_counter : v.id = c.used)
      (used_eq : c'.used.toNat = c.used.toNat + 1) : Step c c' .new (.handedOut v)
  | runOut (used_eq : c.used.toNat + 1 = UInt32.size) (stays : c' = c) : Step c c' .new .exhausted
  | mark (v : Var) (b : Bool) (moves : b = true ↔ c.used.toNat < v.id.toNat + 1)
      (used_eq : c'.used.toNat = max c.used.toNat (v.id.toNat + 1)) : Step c c' (.mark v) (.moved b)
  | raise (v : Var) (b : Bool) (moves : b = true ↔ c.used.toNat < v.id.toNat)
      (used_eq : c'.used.toNat = max c.used.toNat v.id.toNat) : Step c c' (.raise v) (.moved b)

/-- A counter tells that it was raised if it stood lower. -/
lemma fst_raise_iff (c : IdCounter) (n : UInt32) :
    (c.raise n).1 = true ↔ c.used.toNat < n.toNat := by
  rw [← UInt32.lt_iff_toNat_lt]
  unfold raise used
  split
  case isTrue h => exact iff_of_true rfl h
  case isFalse h => exact iff_of_false Bool.false_ne_true h

/-- A request for the next id hands it out, unless the counter stands at the highest word. -/
lemma step_newVar (c : IdCounter) :
    Step c c.newVar.2 .new (c.newVar.1.elim .exhausted .handedOut) := by
  have hword : c.next.toNat < 4294967296 := c.next.toNat_lt
  unfold newVar Var.ofId
  split
  case h_1 v hv =>
    split at hv
    case isTrue hle =>
      obtain rfl := Except.ok.inj hv
      refine .handOut _ rfl ?_
      show (c.next + 1).toNat = c.next.toNat + 1
      have hmax : c.next.toNat ≤ 4294967294 := UInt32.le_iff_toNat_le.1 hle
      rw [UInt32.toNat_add, UInt32.toNat_one]
      omega
    case isFalse => cases hv
  case h_2 e hv =>
    split at hv
    case isTrue => cases hv
    case isFalse hgt =>
      refine .runOut ?_ rfl
      have hmax : 4294967294 < c.next.toNat := UInt32.lt_iff_toNat_lt.1 (UInt32.not_le.1 hgt)
      show c.next.toNat + 1 = 4294967296
      omega

/-- What a counter does when it answers a request. -/
lemma step_answer (c : IdCounter) (r : Request) : Step c (c.answer r).2 r (c.answer r).1 := by
  cases r with
  | new => exact c.step_newVar
  | mark v =>
    refine .mark v _ ?_ (c.used_mark v)
    rw [mark, fst_raise_iff, v.toNat_id_add_one]
  | raise v => exact .raise v _ (c.fst_raise_iff v.id) (c.used_raise v.id)

namespace Step

/-- A step never moves down. -/
lemma used_le (h : Step c c' r reply) : c.used.toNat ≤ c'.used.toNat := by
  cases h with
  | handOut => omega
  | runOut _ stays => exact Nat.le_of_eq (by rw [stays])
  | mark => omega
  | raise => omega

/-- A step moves exactly if the answer tells so. -/
lemma used_ne_iff (h : Step c c' r reply) :
    c'.used.toNat ≠ c.used.toNat ↔ reply.tellsMove = true := by
  cases h with
  | handOut => exact iff_of_true (by omega) rfl
  | runOut _ stays => exact iff_of_false (fun hne => hne (by rw [stays])) Bool.false_ne_true
  | mark v b moves used_eq =>
    rw [Reply.tellsMove, moves]
    omega
  | raise v b moves used_eq =>
    rw [Reply.tellsMove, moves]
    omega

lemma id_eq {v : Var} (h : Step c c' r (.handedOut v)) : v.id = c.used := by
  cases h with
  | handOut _ at_counter => exact at_counter

/-- The counter stands above an id that was handed out. -/
lemma handedOut_lt {v : Var} (h : Step c c' r (.handedOut v)) : v.id < c'.used := by
  cases h with
  | handOut _ at_counter used_eq =>
    rw [UInt32.lt_iff_toNat_lt, at_counter]
    omega

/-- The counter stands above an id that was marked. -/
lemma marked_lt {v : Var} (h : Step c c' (.mark v) reply) : v.id < c'.used := by
  cases h with
  | mark _ b moves used_eq =>
    rw [UInt32.lt_iff_toNat_lt]
    omega

/-- The counter stands no lower than an id it was raised to. -/
lemma raised_le {v : Var} (h : Step c c' (.raise v) reply) : v.id ≤ c'.used := by
  cases h with
  | raise _ b moves used_eq =>
    rw [UInt32.le_iff_toNat_le]
    omega

/-- The ids have run out exactly if the next one is asked for at the highest word. -/
lemma exhausted_iff (h : Step c c' r reply) :
    reply = .exhausted ↔ r = .new ∧ c.used.toNat + 1 = UInt32.size := by
  cases h with
  | handOut v at_counter used_eq =>
    have hword : c'.used.toNat < 4294967296 := c'.used.toNat_lt
    refine iff_of_false Reply.noConfusion ?_
    rintro ⟨-, hend⟩
    change c.used.toNat + 1 = 4294967296 at hend
    omega
  | runOut used_eq => exact iff_of_true rfl ⟨rfl, used_eq⟩
  | mark => exact iff_of_false Reply.noConfusion fun h => Request.noConfusion h.1
  | raise => exact iff_of_false Reply.noConfusion fun h => Request.noConfusion h.1

lemma stays_of_exhausted (h : Step c c' r .exhausted) : c' = c := by
  cases h with
  | runOut _ stays => exact stays

end Step

/-! ## The highest variable -/

/-- A counter without ids in use has no highest variable. -/
lemma last?_of_eq_zero (h : c.used = 0) : c.last? = none :=
  if_pos h

/-- A counter with ids in use has the variable right below it. -/
lemma exists_last?_of_ne_zero (h : c.used ≠ 0) :
    ∃ v, c.last? = some v ∧ c.used.toNat = v.id.toNat + 1 := by
  change c.next ≠ 0 at h
  have hword : c.next.toNat < 4294967296 := c.next.toNat_lt
  have hpos : c.next.toNat ≠ 0 := fun hzero => h (UInt32.toNat_inj.1 hzero)
  have hone : (1 : UInt32) ≤ c.next := UInt32.le_iff_toNat_le.2 (Nat.pos_of_ne_zero hpos)
  have hpred : (c.next - 1).toNat = c.next.toNat - 1 := UInt32.toNat_sub_of_le _ _ hone
  have hle : c.next - 1 ≤ Var.maxId := by
    rw [UInt32.le_iff_toNat_le, hpred]
    show _ ≤ 4294967294
    omega
  refine ⟨⟨c.next - 1, hle⟩, ?_, ?_⟩
  · rw [last?, if_neg h, Var.ofId, dif_pos hle]
    rfl
  · show c.next.toNat = (c.next - 1).toNat + 1
    omega

/-- The highest variable in use is the one right below the counter. -/
lemma last?_eq_some_iff {v : Var} : c.last? = some v ↔ c.used.toNat = v.id.toNat + 1 := by
  by_cases hzero : c.used = 0
  · rw [last?_of_eq_zero hzero, hzero]
    exact iff_of_false (by simp) (by simp)
  · obtain ⟨w, hlast, hused⟩ := exists_last?_of_ne_zero hzero
    rw [hlast, Option.some.injEq, hused, ← Var.toNat_id_injective.eq_iff, Nat.add_right_cancel_iff]

/-- There is no highest variable exactly if no id is in use. -/
lemma last?_eq_none_iff : c.last? = none ↔ c.used = 0 := by
  refine ⟨fun hnone => ?_, last?_of_eq_zero⟩
  by_contra hne
  obtain ⟨v, hlast, -⟩ := exists_last?_of_ne_zero hne
  rw [hnone] at hlast
  cases hlast

/-! ## Histories -/

/-- The second event comes after the first: the counter has not moved down in between, and an id
that is handed out was neither handed out nor marked before, nor is it below the next free one. -/
structure Event.Precedes (e f : Event) : Prop where
  used_le : e.after.used ≤ f.before.used
  handedOut_lt : ∀ v w, f.reply = .handedOut v → e.reply = .handedOut w → w.id < v.id
  marked_lt : ∀ v w, f.reply = .handedOut v → e.request = .mark w → w.id < v.id
  raised_le : ∀ v w, f.reply = .handedOut v → e.request = .raise w → w.id ≤ v.id

/-- Every event of a history is a step. -/
lemma step_of_mem_history {e : Event} (h : e ∈ c.history rs) :
    Step e.before e.after e.request e.reply := by
  induction rs generalizing c with
  | nil => cases h
  | cons r rs ih =>
    rcases List.mem_cons.1 h with rfl | h
    · exact c.step_answer r
    · exact ih h

/-- Over a history a counter never stands lower than at the start. -/
lemma used_le_of_mem_history {e : Event} (h : e ∈ c.history rs) : c.used ≤ e.before.used := by
  induction rs generalizing c with
  | nil => cases h
  | cons r rs ih =>
    rcases List.mem_cons.1 h with rfl | h
    · exact UInt32.le_refl _
    · exact UInt32.le_trans (UInt32.le_iff_toNat_le.2 (c.step_answer r).used_le) (ih h)

/-- Events between which the counter has not moved down are in order. -/
lemma Event.precedes_of_steps {e f : Event} (he : Step e.before e.after e.request e.reply)
    (hf : Step f.before f.after f.request f.reply) (hle : e.after.used ≤ f.before.used) :
    e.Precedes f where
  used_le := hle
  handedOut_lt v w hv hw := by
    rw [hv] at hf
    rw [hw] at he
    rw [hf.id_eq]
    exact UInt32.lt_of_lt_of_le he.handedOut_lt hle
  marked_lt v w hv hw := by
    rw [hv] at hf
    rw [hw] at he
    rw [hf.id_eq]
    exact UInt32.lt_of_lt_of_le he.marked_lt hle
  raised_le v w hv hw := by
    rw [hv] at hf
    rw [hw] at he
    rw [hf.id_eq]
    exact UInt32.le_trans he.raised_le hle

/-- The events of a history are in order. -/
lemma pairwise_history (c : IdCounter) (rs : List Request) :
    (c.history rs).Pairwise Event.Precedes := by
  induction rs generalizing c with
  | nil => exact .nil
  | cons r rs ih =>
    refine .cons (fun f hf => ?_) (ih _)
    exact Event.precedes_of_steps (c.step_answer r) (step_of_mem_history hf)
      (used_le_of_mem_history hf)

/-- **Counters never hand out an id twice.**  A counter answers any requests, from wherever it
stands.  It never moves down, and it moves exactly if it hands out an id or tells that it was moved.
No step wraps around: in natural numbers a new id is one more, and the others are maxima.  A
request for an id fails exactly at the highest word, and leaves the counter there.  Whatever is
handed out is above all that was handed out or marked before, and no lower than any id that was told
to be the next free one.  The highest variable in use is the one right below the counter. -/
theorem ids_never_reused (c : IdCounter) (rs : List Request) :
    (∀ e ∈ c.history rs,
      Step e.before e.after e.request e.reply ∧
      e.before.used ≤ e.after.used ∧
      (e.after.used ≠ e.before.used ↔ e.reply.tellsMove = true) ∧
      (e.reply = .exhausted ↔ e.request = .new ∧ e.before.used.toNat + 1 = UInt32.size) ∧
      (e.reply = .exhausted → e.after = e.before)) ∧
    (c.history rs).Pairwise Event.Precedes ∧
    (∀ v, (c.after rs).last? = some v ↔ (c.after rs).used.toNat = v.id.toNat + 1) ∧
    ((c.after rs).last? = none ↔ (c.after rs).used = 0) := by
  refine ⟨fun e he => ?_, c.pairwise_history rs, fun v => last?_eq_some_iff, last?_eq_none_iff⟩
  have hstep := step_of_mem_history he
  have hmoves : e.after.used ≠ e.before.used ↔ e.reply.tellsMove = true := by
    rw [← hstep.used_ne_iff, ne_eq, ne_eq, UInt32.toNat_inj]
  refine ⟨hstep, UInt32.le_iff_toNat_le.2 hstep.used_le, hmoves, hstep.exhausted_iff, ?_⟩
  intro hout
  rw [hout] at hstep
  exact hstep.stays_of_exhausted

/-- The last ids are handed out or marked, a variable that is told to be the next free one is the
next to be handed out, and then no id is left. -/
theorem ids_never_reused_to_the_end :
    let c : IdCounter := ⟨4294967290⟩
    let rs : List Request := [.new, .mark ⟨4294967292, by decide⟩, .raise ⟨4294967293, by decide⟩,
      .new, .mark ⟨4294967294, by decide⟩, .new]
    let e : Event := ⟨⟨4294967295⟩, .new, .exhausted, ⟨4294967295⟩⟩
    (c.history rs).map (·.reply) = [.handedOut ⟨4294967290, by decide⟩, .moved true, .moved false,
      .handedOut ⟨4294967293, by decide⟩, .moved true, .exhausted] ∧
    e ∈ c.history rs ∧ Step e.before e.after e.request e.reply ∧
      (e.reply = .exhausted → e.after = e.before) ∧ (c.history rs).Pairwise Event.Precedes := by
  intro c rs e
  have hmem : e ∈ c.history rs := by decide
  obtain ⟨hevents, hordered, -, -⟩ := ids_never_reused c rs
  obtain ⟨hstep, -, -, -, hstays⟩ := hevents e hmem
  exact ⟨by decide, hmem, hstep, hstays, hordered⟩

end IdCounter

end LinearInterchange
