import LinearInterchange.Format.Knapsack.Generator
import LinearInterchange.Proofs.KnapsackRoundTrip
import Mathlib.Data.Int.Basic

/-!
# Generated streams

Generated knapsacks are named by numbers behind a text that anyone may choose.  The writer takes any
name as it is, but the reader only takes words without commas, so a generated stream is read back
just if that text has neither white space nor commas.  The other limits are those of the numbers: of
the ids for the items, and of the words for the capacity.  Where ranges hold one value, this is so
for whatever sampler draws from them.
-/

namespace LinearInterchange

/-- A quotient of words is a word, but for the opposite of the least one. -/
lemma fitsWord_tdiv_iff {n d : ℤ} (hn : FitsWord n) (hd : d ≠ 0) :
    FitsWord (n.tdiv d) ↔ (d = -1 → n ≠ Int64.minValue.toInt) := by
  have hleast : Int64.minValue.toInt = -9223372036854775808 := rfl
  have habs : (n.tdiv d).natAbs = n.natAbs / d.natAbs := Int.natAbs_tdiv n d
  unfold FitsWord at hn ⊢
  rw [hleast]
  by_cases hone : d = -1
  · subst hone
    rw [Int.tdiv_neg, Int.tdiv_one]
    omega
  · rcases Int.lt_or_gt_of_ne hd with hneg | hpos
    · have hhalf : n.natAbs / d.natAbs ≤ n.natAbs / 2 := Nat.div_le_div_left (by omega) (by omega)
      omega
    · have hfits := fitsWord_tdiv (d := d) hn hpos
      unfold FitsWord at hfits
      omega

namespace Knapsack

open Text

variable {ks : List Knapsack}

/-! ## Reading back what was written -/

/-- The stream of the knapsacks is decoded into their instances, in order, and then it has ended. -/
def ReadBack (ks : List Knapsack) : Prop :=
  ∀ (seekable : Bool) (chunk : ℕ), ∃ reads,
    Reader.Reads ⟨.knapsack, {}⟩ (.ofBytes (bytesOf (renderAll ks)) seekable chunk) reads ∧
      ks.mapM toInstance = .ok (reads.map Prod.fst)

/-- Knapsacks are read back if they can be written, and otherwise they are not. -/
lemma readBack_iff : ReadBack ks ↔ ∀ k ∈ ks, k.Storable := by
  constructor
  · intro h
    obtain ⟨reads, hreads, hinsts⟩ := h false 1
    obtain ⟨ks', hks', hinsts'⟩ := exists_knapsacks_of_reads rfl hreads
    exact storable_of_instances hinsts' hinsts hks'
  · intro h seekable chunk
    obtain ⟨reads, hreads, hinsts, -⟩ := reads_renderAll h {} (by rintro ⟨⟩)
      (.ofBytes (bytesOf (renderAll ks)) seekable chunk) rfl
    exact ⟨reads, hreads, hinsts⟩

/-- The instances of knapsacks have their names. -/
lemma names_of_mapM {insts : List Instance} (h : ks.mapM toInstance = .ok insts) :
    insts.map (·.name) = ks.map fun k => some k.name := by
  rw [mapM_eq_ok] at h
  induction h with
  | nil => rfl
  | cons hinst _ ih => rw [List.map_cons, List.map_cons, ih, name_of_toInstance hinst]

namespace Generator

variable {g : Generator} {sampler : Sampler} {first count : ℕ} {state : sampler.State}

/-! ## What is generated -/

/-- The name of the knapsack with a number. -/
def nameOf (g : Generator) (n : ℕ) : String :=
  g.stem ++ toString n

/-- The text before the numbers can begin a name: it has neither white space nor commas. -/
def HasPlainStem (g : Generator) : Prop :=
  ∀ c ∈ g.stem.toList, isBlank c = false ∧ c ≠ ','

instance (g : Generator) : Decidable g.HasPlainStem :=
  decidable_of_iff (g.stem.toList.all (fun c => !isBlank c && c != ',') = true)
    (by simp [HasPlainStem])

/-- The number behind the text makes a name of it, unless the text spoils it. -/
lemma isEntryName_nameOf_iff (n : ℕ) : IsEntryName (g.nameOf n) ↔ g.HasPlainStem := by
  have htext : (g.nameOf n).toList = g.stem.toList ++ Nat.toDigits 10 n := by
    rw [nameOf, String.toList_append, toList_toString_nat]
  constructor
  · rintro ⟨hword, hcomma⟩ c hc
    rw [htext] at hcomma
    refine ⟨hword.solid c (htext ▸ List.mem_append_left _ hc), ?_⟩
    rintro rfl
    exact hcomma (List.mem_append_left _ hc)
  · intro h
    refine ⟨⟨?_, fun c hc => ?_⟩, fun hcomma => ?_⟩
    · obtain ⟨d, ds, hds⟩ := exists_toDigits_eq_cons n
      rw [htext, hds.1]
      exact List.append_ne_nil_of_right_ne_nil _ (List.cons_ne_nil d ds)
    · rw [htext, List.mem_append] at hc
      rcases hc with hc | hc
      · exact (h c hc).1
      · exact isBlank_of_isDigit (isDigit_of_mem hc)
    · rw [htext, List.mem_append] at hcomma
      rcases hcomma with hc | hc
      · exact (h ',' hc).2 rfl
      · exact ne_of_isDigit (isDigit_of_mem hc) (by decide) rfl

/-- As many items are drawn as were asked for. -/
lemma length_drawItems (g : Generator) (n : ℕ) (state : sampler.State) :
    (g.drawItems sampler n state).1.length = n := by
  induction n generalizing state with
  | zero => rfl
  | succ n ih => simp only [drawItems, List.length_cons, ih]

/-- A knapsack is generated, and those after it are, if there is a capacity for its items. -/
lemma generateFrom_succ_eq_some_iff {ks : List Knapsack} :
    g.generateFrom sampler first (count + 1) state = some ks ↔ ∃ capacity rest,
      g.capacityFor (g.drawItems sampler g.items state).1 = some capacity ∧
      g.generateFrom sampler (first + 1) count (g.drawItems sampler g.items state).2 = some rest ∧
      ks = ⟨g.nameOf first, capacity, (g.drawItems sampler g.items state).1⟩ :: rest := by
  simp only [generateFrom, Option.bind_eq_bind, Option.bind_eq_some_iff, Option.pure_def,
    Option.some.injEq]
  constructor
  · rintro ⟨capacity, hcapacity, rest, hrest, rfl⟩
    exact ⟨capacity, rest, hcapacity, hrest, rfl⟩
  · rintro ⟨capacity, rest, hcapacity, hrest, rfl⟩
    exact ⟨capacity, hcapacity, rest, hrest, rfl⟩

/-- Generated knapsacks are numbered in order. -/
lemma names_generateFrom (h : g.generateFrom sampler first count state = some ks) :
    ks.map (·.name) = (List.range' first count).map g.nameOf := by
  induction count generalizing first state ks with
  | zero =>
    obtain rfl := Option.some.inj h
    rfl
  | succ count ih =>
    obtain ⟨capacity, rest, -, hrest, rfl⟩ := generateFrom_succ_eq_some_iff.1 h
    rw [List.map_cons, List.range'_succ, List.map_cons, ih hrest]

/-- Generated knapsacks have as many items as were asked for. -/
lemma length_items_generateFrom (h : g.generateFrom sampler first count state = some ks) :
    ∀ k ∈ ks, k.items.length = g.items := by
  induction count generalizing first state ks with
  | zero =>
    obtain rfl := Option.some.inj h
    exact List.forall_mem_nil _
  | succ count ih =>
    obtain ⟨capacity, rest, -, hrest, rfl⟩ := generateFrom_succ_eq_some_iff.1 h
    exact List.forall_mem_cons.2 ⟨g.length_drawItems g.items state, ih hrest⟩

/-- Generated knapsacks are read back if the text of their names is plain and there are ids for
their items, or if there are none of them. -/
lemma readBack_generate_iff {seed : ℕ} (h : g.generateWith sampler count seed = some ks) :
    ReadBack ks ↔ count = 0 ∨ g.HasPlainStem ∧ g.items ≤ Var.maxId.toNat := by
  -- all names have the same stem, so the name of one knapsack tells whether it is plain
  have hnames := names_generateFrom h
  have hitems := length_items_generateFrom h
  rw [readBack_iff]
  constructor
  · intro hks
    cases ks with
    | nil =>
      have hlength := congrArg List.length hnames
      rw [List.length_map, List.length_map, List.length_range'] at hlength
      exact .inl hlength.symm
    | cons k rest =>
      have hk := hks k List.mem_cons_self
      have hname : k.name ∈ (List.range' 1 count).map g.nameOf :=
        hnames ▸ List.mem_map_of_mem List.mem_cons_self
      obtain ⟨n, -, hn⟩ := List.mem_map.1 hname
      refine .inr ⟨(isEntryName_nameOf_iff n).1 (hn ▸ hk.name), ?_⟩
      exact hitems k List.mem_cons_self ▸ hk.length_le
  · rintro (rfl | ⟨hstem, hle⟩) k hk
    · rw [List.range'_zero, List.map_nil, List.map_eq_nil_iff] at hnames
      rw [hnames] at hk
      exact absurd hk List.not_mem_nil
    · have hname : k.name ∈ (List.range' 1 count).map g.nameOf :=
        hnames ▸ List.mem_map_of_mem hk
      obtain ⟨n, -, hn⟩ := List.mem_map.1 hname
      exact ⟨hn ▸ (isEntryName_nameOf_iff n).2 hstem, (hitems k hk).trans_le hle⟩

/-! ## Ranges of one value -/

/-- Only one profit and one weight can be drawn. -/
structure IsConstant (g : Generator) : Prop where
  profit : g.profit.greatest = g.profit.least
  weight : g.weight.greatest = g.weight.least

/-- The weight of all items if only one weight can be drawn. -/
def total (g : Generator) : ℤ :=
  g.items * g.weight.least.toInt

/-- The only value of a range is drawn, by any sampler. -/
lemma fst_draw {r : WordRange} (h : r.greatest = r.least) (state : sampler.State) :
    (sampler.draw r state).1 = r.least := by
  obtain ⟨hleast, hgreatest⟩ := sampler.holds_draw r state (h ▸ Int64.le_refl r.least)
  rw [h] at hgreatest
  exact Int64.le_antisymm hgreatest hleast

/-- All items are alike. -/
lemma drawItems_of_isConstant (h : g.IsConstant) (n : ℕ) (state : sampler.State) :
    (g.drawItems sampler n state).1 = List.replicate n ⟨g.profit.least, g.weight.least⟩ := by
  induction n generalizing state with
  | zero => rfl
  | succ n ih =>
    simp only [drawItems, List.replicate_succ, fst_draw h.profit, fst_draw h.weight, ih]

/-- Weights are added up, and only the sum at the end has to be a word. -/
lemma toInt_foldl_weight (item : KnapsackItem) (n : ℕ) (start : Int64) :
    ((List.replicate n item).foldl (fun total item => total + item.weight) start).toInt =
      (start.toInt + n * item.weight.toInt).bmod (2 ^ 64) := by
  induction n generalizing start with
  | zero =>
    have hstart := fitsWord_toInt start
    unfold FitsWord at hstart
    rw [Nat.cast_zero, Int.zero_mul, Int.add_zero, Int.bmod_eq_of_le (by omega) (by omega)]
    rfl
  | succ n ih =>
    have hsum : start.toInt + item.weight.toInt + n * item.weight.toInt =
        start.toInt + ↑(n + 1) * item.weight.toInt := by
      rw [Nat.cast_succ, Int.add_mul, Int.one_mul]
      omega
    rw [List.replicate_succ, List.foldl_cons, ih, Int64.toInt_add, Int.bmod_add_bmod, hsum]

/-- There is a capacity for items that are alike, unless it is the opposite of the least word. -/
lemma isSome_capacityFor_iff (hdivisor : g.capacity ≠ .fraction 0) (htotal : FitsWord g.total) :
    (g.capacityFor (List.replicate g.items ⟨g.profit.least, g.weight.least⟩)).isSome ↔
      (g.capacity = .fraction (-1) → g.total ≠ Int64.minValue.toInt) := by
  unfold capacityFor
  cases hrule : g.capacity with
  | fixed c => simp
  | fraction d =>
    have hd : d ≠ 0 := fun hd => hdivisor (by rw [hrule, hd])
    have hne : d.toInt ≠ 0 := fun hzero => hd (Int64.toInt_inj.1 hzero)
    have hminus : d.toInt = -1 ↔ d = -1 := Int64.toInt_inj (y := -1)
    have hsum := toInt_foldl_weight ⟨g.profit.least, g.weight.least⟩ g.items 0
    have hfits := htotal
    unfold FitsWord at hfits
    rw [Int64.toInt_zero, Int.zero_add, ← total, Int.bmod_eq_of_le (by omega) (by omega)] at hsum
    simp only [if_neg hd, hsum, word?, Option.isSome_ite, fitsWord_tdiv_iff htotal hne, hminus,
      CapacityRule.fraction.injEq]

/-- As many knapsacks are generated as were asked for, unless there is no capacity for them. -/
lemma isSome_generateFrom_iff (h : g.IsConstant) :
    (g.generateFrom sampler first count state).isSome ↔ count = 0 ∨
      (g.capacityFor (List.replicate g.items ⟨g.profit.least, g.weight.least⟩)).isSome := by
  induction count generalizing first state with
  | zero => simp [generateFrom]
  | succ count ih =>
    rw [Option.isSome_iff_exists]
    simp only [generateFrom_succ_eq_some_iff, drawItems_of_isConstant h]
    constructor
    · rintro ⟨ks, capacity, rest, hcapacity, -, -⟩
      exact .inr (Option.isSome_iff_exists.2 ⟨capacity, hcapacity⟩)
    · rintro (hzero | hsome)
      · exact absurd hzero (Nat.succ_ne_zero count)
      · obtain ⟨capacity, hcapacity⟩ := Option.isSome_iff_exists.1 hsome
        have hnext : (g.generateFrom sampler (first + 1) count
            (g.drawItems sampler g.items state).2).isSome :=
          ih.2 (.inr hsome)
        obtain ⟨rest, hrest⟩ := Option.isSome_iff_exists.1 hnext
        exact ⟨_, capacity, rest, hcapacity, hrest, rfl⟩

/-! ## Streams that can be converted -/

/-- The stream that is generated is decoded into the instances of the generated knapsacks, which
are named in order by their numbers, and then it has ended. -/
def Convertible (g : Generator) (sampler : Sampler) (count seed : ℕ) : Prop :=
  ∃ ks, g.generateWith sampler count seed = some ks ∧ ∀ (seekable : Bool) (chunk : ℕ), ∃ reads,
    Reader.Reads ⟨.knapsack, {}⟩ (.ofBytes (bytesOf (renderAll ks)) seekable chunk) reads ∧
      ks.mapM toInstance = .ok (reads.map Prod.fst) ∧
      reads.map (·.1.name) = (List.range' 1 count).map fun n => some (g.stem ++ toString n)

/-- A stream can be converted if its knapsacks are generated and read back. -/
lemma convertible_iff_readBack {seed : ℕ} :
    g.Convertible sampler count seed ↔
      ∃ ks, g.generateWith sampler count seed = some ks ∧ ReadBack ks := by
  constructor
  · rintro ⟨ks, hks, hread⟩
    refine ⟨ks, hks, fun seekable chunk => ?_⟩
    obtain ⟨reads, hreads, hinsts, -⟩ := hread seekable chunk
    exact ⟨reads, hreads, hinsts⟩
  · rintro ⟨ks, hks, hread⟩
    refine ⟨ks, hks, fun seekable chunk => ?_⟩
    obtain ⟨reads, hreads, hinsts⟩ := hread seekable chunk
    refine ⟨reads, hreads, hinsts, ?_⟩
    calc reads.map (·.1.name)
      _ = (reads.map Prod.fst).map (·.name) := by rw [List.map_map]; rfl
      _ = (ks.map (·.name)).map some := by rw [names_of_mapM hinsts, List.map_map]; rfl
      _ = _ := by rw [names_generateFrom hks, List.map_map]; rfl

/-- **Generated streams are read back.**  A stream of knapsacks whose items are all alike is decoded
into the knapsacks that were generated exactly if the text before the numbers in their names has
neither white space nor commas, there are ids for their items, and their capacity is a word: of the
total weights that are words only the least one has an opposite that is none.  A stream without
knapsacks always is. -/
theorem convertible_iff (g : Generator) (sampler : Sampler) (count seed : ℕ)
    (hconstant : g.IsConstant) (hdivisor : g.capacity ≠ .fraction 0) (htotal : FitsWord g.total) :
    g.Convertible sampler count seed ↔ count = 0 ∨ g.HasPlainStem ∧ g.items ≤ Var.maxId.toNat ∧
      (g.capacity = .fraction (-1) → g.total ≠ Int64.minValue.toInt) := by
  have hsome : (∃ ks, g.generateWith sampler count seed = some ks) ↔
      count = 0 ∨ (g.capacity = .fraction (-1) → g.total ≠ Int64.minValue.toInt) := by
    rw [← isSome_capacityFor_iff hdivisor htotal, ← Option.isSome_iff_exists]
    exact isSome_generateFrom_iff hconstant
  rw [convertible_iff_readBack]
  constructor
  · rintro ⟨ks, hks, hread⟩
    have hcapacity := hsome.1 ⟨ks, hks⟩
    rcases (readBack_generate_iff hks).1 hread with hzero | ⟨hstem, hitems⟩
    · exact .inl hzero
    · exact hcapacity.imp_right fun hcapacity => ⟨hstem, hitems, hcapacity⟩
  · intro h
    obtain ⟨ks, hks⟩ := hsome.2 (h.imp_right fun h => h.2.2)
    exact ⟨ks, hks, (readBack_generate_iff hks).2 (h.imp_right fun h => ⟨h.1, h.2.1⟩)⟩

/-- A divisor that is negative, weights that are negative and a text that looks like a separator are
no obstacles. -/
theorem convertible_iff_separator :
    let g : Generator :=
      { items := 2
        profit := ⟨Int64.minValue, Int64.minValue⟩
        weight := ⟨-5, -5⟩
        capacity := .fraction (-1)
        stem := separator }
    g.IsConstant ∧ g.capacity ≠ .fraction 0 ∧ FitsWord g.total ∧ g.Convertible .standard 3 42 := by
  intro g
  have hconstant : g.IsConstant := ⟨rfl, rfl⟩
  have hdivisor : g.capacity ≠ .fraction 0 := by decide
  have htotal : FitsWord g.total := by decide
  refine ⟨hconstant, hdivisor, htotal, ?_⟩
  exact (convertible_iff g .standard 3 42 hconstant hdivisor htotal).2
    (.inr ⟨by decide, by decide, by decide⟩)

/-- A blank in the text before the numbers is written into the stream, which the reader refuses. -/
theorem not_convertible_of_blank :
    let g : Generator := { items := 0, profit := ⟨1, 1⟩, weight := ⟨1, 1⟩, stem := "a b" }
    g.IsConstant ∧ g.capacity ≠ .fraction 0 ∧ FitsWord g.total ∧
      (g.generate 1 42).map renderAll = some "a b1\nn 0\nc 0\n-----\n\n" ∧
      ¬g.Convertible .standard 1 42 := by
  intro g
  refine ⟨⟨rfl, rfl⟩, by decide, by decide, by decide, fun h => ?_⟩
  obtain ⟨ks, hks, hread⟩ := convertible_iff_readBack.1 h
  rcases (readBack_generate_iff hks).1 hread with hzero | ⟨hstem, -⟩
  · exact absurd hzero Nat.one_ne_zero
  · exact absurd hstem (by decide)

end Generator

end Knapsack

end LinearInterchange
