import LinearInterchange.Options
import LinearInterchange.Proofs.Outcome
import LinearInterchange.Proofs.Words

/-!
# Written options

Options are written as entries with semicolons between them.  An entry is read in three steps that
all trim: the entry itself, its key and its value.  White space around an entry is white space
before its key and after its value, so an entry can be described by its two sides alone, without the
steps.  This file determines from that which texts are read, what map they stand for, and which
entry is reported if a text is refused.
-/

namespace LinearInterchange

open Text

/-! ## Trimming the two sides of an entry -/

section Trimming

variable {p : Char → Bool} {c : Char} {w blanks key value : List Char}

/-- Characters of a class are dropped up to the first one of another class. -/
lemma dropWhile_append_cons (hc : p c = false) (l r : List Char) :
    (l ++ c :: r).dropWhile p = l.dropWhile p ++ c :: r := by
  rw [List.dropWhile_append]
  split
  next hnil =>
    rw [List.isEmpty_iff.1 hnil, List.dropWhile_cons_of_neg (by simp [hc]), List.nil_append]
  next => rfl

/-- Trimming the front leaves a text alone from its first character that is not blank. -/
lemma trimLeft_append_cons (hc : isBlank c = false) (l r : List Char) :
    trimLeft (l ++ c :: r) = trimLeft l ++ c :: r :=
  dropWhile_append_cons hc l r

/-- Trimming the end leaves a text alone up to its last character that is not blank. -/
lemma trimRight_append_cons (hc : isBlank c = false) (l r : List Char) :
    trimRight (l ++ c :: r) = l ++ c :: trimRight r := by
  have hreverse : (l ++ c :: r).reverse = r.reverse ++ c :: l.reverse := by simp
  rw [trimRight, hreverse, dropWhile_append_cons hc]
  simp [trimRight]

/-- White space at the end is left out. -/
lemma trim_append_blanks (w : List Char) (h : blanks.all isBlank = true) :
    trim (w ++ blanks) = trim w := by
  induction blanks using List.reverseRecOn with
  | nil => rw [List.append_nil]
  | append_singleton blanks c ih =>
    rw [List.all_append, Bool.and_eq_true, List.all_cons, Bool.and_eq_true] at h
    rw [← List.append_assoc, trim_append_blank _ h.2.1, ih h.1]

/-- White space at the beginning is left out. -/
lemma trim_blanks_append (w : List Char) (h : blanks.all isBlank = true) :
    trim (blanks ++ w) = trim w := by
  induction blanks with
  | nil => rfl
  | cons c blanks ih =>
    rw [List.all_cons, Bool.and_eq_true] at h
    rw [List.cons_append, trim_cons_blank _ h.1, ih h.2]

lemma trim_trimLeft (w : List Char) : trim (trimLeft w) = trim w := by
  rw [trim, trim, trimLeft, trimLeft, List.dropWhile_idempotent]

/-- A text that was trimmed at its end may be trimmed again. -/
lemma trim_trimRight (w : List Char) : trim (trimRight w) = trim w := by
  have hblanks : (w.rtakeWhile isBlank).all isBlank = true :=
    List.all_eq_true.2 fun c hc => List.mem_rtakeWhile_imp hc
  calc trim (trimRight w)
      = trim (trimRight w ++ w.rtakeWhile isBlank) := (trim_append_blanks _ hblanks).symm
    _ = trim w := by rw [trimRight_eq_rdropWhile, List.rdropWhile_append_rtakeWhile]

end Trimming

/-! ## Maps from lists of pairs -/

namespace KeyMap

variable {β : Type}

/-- The value of a key is the one of its entry. -/
lemma get?_eq_some_iff (m : KeyMap β) (k : String) (v : β) :
    m.get? k = some v ↔ (k, v) ∈ m.entries := by
  obtain ⟨es, hsorted⟩ := m
  show (es.find? (·.1 = k)).map (·.2) = some v ↔ (k, v) ∈ es
  induction es with
  | nil => simp
  | cons e es ih =>
    obtain ⟨hlt, hes⟩ := List.pairwise_cons.1 hsorted
    by_cases he : e.1 = k
    · -- the keys behind the first entry are greater
      have hnot : (k, v) ∉ es := fun hmem => String.lt_irrefl k (he ▸ hlt (k, v) hmem)
      rw [List.find?_cons_of_pos (by simpa using he), List.mem_cons, or_iff_left hnot]
      constructor
      · intro h
        exact Prod.ext he.symm (Option.some.inj h).symm
      · rintro rfl
        rfl
    · have hne : (k, v) ≠ e := fun h => he (congrArg Prod.fst h).symm
      rw [List.find?_cons_of_neg (by simpa using he), List.mem_cons, or_iff_right hne, ih hes]

/-- A map from a list has for each key the value of the last pair with the key. -/
lemma get?_ofList (pairs : List (String × β)) (k : String) :
    (ofList pairs).get? k = (pairs.reverse.find? (·.1 = k)).map (·.2) := by
  induction pairs using List.reverseRecOn with
  | nil => rfl
  | append_singleton pairs p ih =>
    have hsnoc : ofList (pairs ++ [p]) = (ofList pairs).insert p.1 p.2 := by
      rw [ofList, List.foldl_append]
      rfl
    rw [hsnoc, get?_insert, ih, List.reverse_append, List.reverse_singleton, List.singleton_append]
    by_cases hp : p.1 = k <;> simp [hp]

/-- A map from a list consists of the pairs behind which their keys do not occur again. -/
lemma mem_entries_ofList_iff (pairs : List (String × β)) (k : String) (v : β) :
    (k, v) ∈ (ofList pairs).entries ↔
      ∃ earlier later, pairs = earlier ++ (k, v) :: later ∧ k ∉ later.map Prod.fst := by
  rw [← get?_eq_some_iff, get?_ofList, Option.map_eq_some_iff]
  constructor
  · rintro ⟨⟨l, u⟩, hfind, rfl⟩
    obtain ⟨hl, later, earlier, heq, hlater⟩ := List.find?_eq_some_iff_append.1 hfind
    obtain rfl : l = k := by simpa using hl
    refine ⟨earlier.reverse, later.reverse, ?_, ?_⟩
    · rw [List.reverse_eq_iff.1 heq]
      simp
    · intro hmem
      obtain ⟨p, hp, hfst⟩ := List.mem_map.1 hmem
      simpa [hfst] using hlater p (List.mem_reverse.1 hp)
  · rintro ⟨earlier, later, rfl, hlater⟩
    refine ⟨(k, v), List.find?_eq_some_iff_append.2 ⟨by simp, later.reverse, earlier.reverse, ?_, ?_⟩,
      rfl⟩
    · simp
    · intro p hp
      have hne : p.1 ≠ k := fun h =>
        hlater (List.mem_map.2 ⟨p, List.mem_reverse.1 hp, h⟩)
      simpa using hne

end KeyMap

namespace Options

/-! ## Entries -/

/-- The pair can be written as an entry: it has a key, both sides are trimmed and without
semicolons, and the key is without equals signs. -/
structure IsPair (p : String × String) : Prop where
  key_ne_nil : p.1.toList ≠ []
  key_trimmed : trim p.1.toList = p.1.toList
  no_equals : '=' ∉ p.1.toList
  key_whole : ';' ∉ p.1.toList
  value_trimmed : trim p.2.toList = p.2.toList
  value_whole : ';' ∉ p.2.toList

/-- The texts between semicolons write the pairs in their order, with white space around keys and
values, and with any blank texts among them. -/
inductive Written : List (String × String) → List (List Char) → Prop
  | nil : Written [] []
  | blank {pairs : List (String × String)} {ws : List (List Char)} {w : List Char} :
    w.all isBlank = true → Written pairs ws → Written pairs (w :: ws)
  | entry {pairs : List (String × String)} {ws : List (List Char)} {p : String × String}
      {a b c d : List Char} :
    a.all isBlank = true → b.all isBlank = true → c.all isBlank = true → d.all isBlank = true →
      Written pairs ws →
        Written (p :: pairs) ((a ++ p.1.toList ++ b ++ '=' :: (c ++ p.2.toList ++ d)) :: ws)

/-- The text between two semicolons is not blank, and it has no equals sign or nothing but white
space before the first one. -/
def IsFaulty (w : List Char) : Prop :=
  w.all isBlank = false ∧ ('=' ∉ w ∨ (w.takeWhile (· != '=')).all isBlank = true)

instance : DecidablePred IsFaulty := fun w => by
  unfold IsFaulty
  infer_instance

/-- The text is the first faulty one between the semicolons of `spec`. -/
def IsFirstFaulty (spec w : List Char) : Prop :=
  ∃ earlier later, [';'].intercalate (earlier ++ w :: later) = spec ∧
    (∀ v ∈ earlier ++ w :: later, ';' ∉ v) ∧ (∀ v ∈ earlier, ¬IsFaulty v) ∧ IsFaulty w

variable {w key value : List Char} {ws : List (List Char)} {pairs : List (String × String)}
  {p : String × String} {e : ConfigError}

lemma not_mem_of_all {blanks : List Char} {c : Char} (h : blanks.all isBlank = true)
    (hc : isBlank c = false) : c ∉ blanks := fun hmem =>
  Bool.false_ne_true (hc.symm.trans (List.all_eq_true.1 h c hmem))

/-- An entry is read from its two sides. -/
lemma readEntry_trim (hkey : '=' ∉ key) :
    readEntry (trim (key ++ '=' :: value)) =
      if key.all isBlank then .error (.badEntry (String.ofList (trim (key ++ '=' :: value))))
      else .ok (String.ofList (trim key), String.ofList (trim value)) := by
  have htrim : trim (key ++ '=' :: value) = trimLeft key ++ '=' :: trimRight value := by
    rw [trim, trimLeft_append_cons (by decide), trimRight_append_cons (by decide)]
  have hsplit : splitFirst (· == '=') (trimLeft key ++ '=' :: trimRight value)
      = some (trimLeft key, trimRight value) := by
    refine splitFirst_append (fun c hc => ?_) (by simp)
    have hne : c ≠ '=' := fun h => hkey (h ▸ (List.dropWhile_suffix _).subset hc)
    simpa using hne
  rw [htrim, readEntry, hsplit]
  simp only [trim_trimLeft, trim_trimRight]
  by_cases hblank : key.all isBlank = true
  · rw [if_pos hblank, if_pos (by rw [trim_eq_nil_iff.2 hblank]; rfl)]
  · rw [if_neg hblank, if_neg (by rwa [List.isEmpty_iff, trim_eq_nil_iff])]

/-- An entry without equals sign is refused. -/
lemma readEntry_trim_of_not_mem (h : '=' ∉ w) :
    readEntry (trim w) = .error (.badEntry (String.ofList (trim w))) := by
  have hsplit : splitFirst (· == '=') (trim w) = none := by
    refine splitFirst_eq_none fun c hc => ?_
    have hne : c ≠ '=' := fun hc' => h (hc' ▸ mem_of_mem_trim hc)
    simpa using hne
  rw [readEntry, hsplit]

/-- The key of an entry ends at the first equals sign. -/
lemma takeWhile_ne_equals (hkey : '=' ∉ key) :
    (key ++ '=' :: value).takeWhile (· != '=') = key := by
  refine takeWhile_append (fun c hc => ?_) (stops_cons (by simp))
  have hne : c ≠ '=' := fun h => hkey (h ▸ hc)
  simpa using hne

/-- The faulty texts are those that are refused. -/
lemma readEntry_eq_error_iff (hw : w.all isBlank = false) :
    readEntry (trim w) = .error e ↔ IsFaulty w ∧ e = .badEntry (String.ofList (trim w)) := by
  -- the first equals sign of the text is the one at which the trimmed text is cut
  by_cases hequals : '=' ∈ w
  · obtain ⟨key, value, rfl, hkey⟩ := List.eq_append_cons_of_mem hequals
    rw [readEntry_trim hkey, IsFaulty, takeWhile_ne_equals hkey]
    by_cases hblank : key.all isBlank = true
    · rw [if_pos hblank, Except.error.injEq, eq_comm]
      exact (and_iff_right ⟨hw, Or.inr hblank⟩).symm
    · rw [if_neg hblank]
      simp [hblank]
  · rw [readEntry_trim_of_not_mem hequals, Except.error.injEq, eq_comm]
    exact (and_iff_right ⟨hw, Or.inl hequals⟩).symm

/-- An entry of a pair is read as the pair. -/
lemma readEntry_entry (hp : IsPair p) {a b c d : List Char} (ha : a.all isBlank = true)
    (hb : b.all isBlank = true) (hc : c.all isBlank = true) (hd : d.all isBlank = true) :
    readEntry (trim (a ++ p.1.toList ++ b ++ '=' :: (c ++ p.2.toList ++ d))) = .ok p := by
  have hkey : '=' ∉ a ++ p.1.toList ++ b := by
    simp only [List.mem_append, not_or]
    exact ⟨⟨not_mem_of_all ha (by decide), hp.no_equals⟩, not_mem_of_all hb (by decide)⟩
  have htrim : trim (a ++ p.1.toList ++ b) = p.1.toList := by
    rw [trim_append_blanks _ hb, trim_blanks_append _ ha, hp.key_trimmed]
  have hvalue : trim (c ++ p.2.toList ++ d) = p.2.toList := by
    rw [trim_append_blanks _ hd, trim_blanks_append _ hc, hp.value_trimmed]
  have hne : ¬(a ++ p.1.toList ++ b).all isBlank = true := by
    rw [← trim_eq_nil_iff, htrim]
    exact hp.key_ne_nil
  rw [readEntry_trim hkey, if_neg hne, htrim, hvalue, String.ofList_toList, String.ofList_toList]

/-! ## Lists of entries -/

/-- Reads the texts between semicolons, of which those that are blank are left out. -/
def readPieces (ws : List (List Char)) : Except ConfigError (List (String × String)) :=
  (ws.filter fun w => !w.all isBlank).mapM fun w => readEntry (trim w)

lemma readPieces_cons_of_blank (h : w.all isBlank = true) :
    readPieces (w :: ws) = readPieces ws := by
  rw [readPieces, List.filter_cons_of_neg (by simp [h]), readPieces]

/-- A text that is not blank is read before those that follow. -/
lemma readPieces_cons (h : w.all isBlank = false) :
    readPieces (w :: ws) =
      readEntry (trim w) >>= fun p => (readPieces ws).map (p :: ·) := by
  rw [readPieces, List.filter_cons_of_pos (by simp [h]), List.mapM_cons]
  rfl

/-- Options are read from the texts between semicolons. -/
lemma read_eq_map_readPieces (spec : String) :
    read spec = (readPieces (spec.toList.splitOn ';')).map KeyMap.ofList := by
  have hfilter : ((spec.toList.splitOn ';').map trim).filter (fun e => !e.isEmpty)
      = ((spec.toList.splitOn ';').filter fun w => !w.all isBlank).map trim := by
    rw [List.filter_map]
    congr 1
    refine List.filter_congr fun w _ => ?_
    rw [Function.comp_apply, Bool.eq_iff_iff, Bool.not_eq_true', Bool.not_eq_true',
      ← Bool.not_eq_true, ← Bool.not_eq_true, List.isEmpty_iff, trim_eq_nil_iff]
  rw [read, hfilter, List.mapM_map]
  rfl

/-- Texts without semicolons are read after they were joined. -/
lemma read_intercalate (hws : ∀ w ∈ ws, ';' ∉ w) :
    read (String.ofList ([';'].intercalate ws)) = (readPieces ws).map KeyMap.ofList := by
  rw [read_eq_map_readPieces, String.toList_ofList]
  cases ws with
  | nil => rfl
  | cons w ws => rw [List.splitOn_intercalate _ hws (List.cons_ne_nil _ _)]

/-- Written pairs have no semicolon within an entry. -/
lemma Written.not_mem_semicolon (h : Written pairs ws) (hpairs : ∀ p ∈ pairs, IsPair p) :
    ∀ w ∈ ws, ';' ∉ w := by
  induction h with
  | nil => exact List.forall_mem_nil _
  | blank hw _ ih => exact List.forall_mem_cons.2 ⟨not_mem_of_all hw (by decide), ih hpairs⟩
  | entry ha hb hc hd _ ih =>
    obtain ⟨hp, hpairs⟩ := List.forall_mem_cons.1 hpairs
    refine List.forall_mem_cons.2 ⟨?_, ih hpairs⟩
    simp only [List.mem_append, List.mem_cons, not_or]
    exact ⟨⟨⟨not_mem_of_all ha (by decide), hp.key_whole⟩, not_mem_of_all hb (by decide)⟩,
      by decide, ⟨not_mem_of_all hc (by decide), hp.value_whole⟩, not_mem_of_all hd (by decide)⟩

/-- The pairs are read from what they are written as. -/
lemma Written.readPieces_eq (h : Written pairs ws) (hpairs : ∀ p ∈ pairs, IsPair p) :
    readPieces ws = .ok pairs := by
  induction h with
  | nil => rfl
  | blank hw _ ih => rw [readPieces_cons_of_blank hw, ih hpairs]
  | entry ha hb hc hd _ ih =>
    obtain ⟨hp, hpairs⟩ := List.forall_mem_cons.1 hpairs
    -- the equals sign is no white space
    rw [readPieces_cons (by simp [show isBlank '=' = false by decide]),
      readEntry_entry hp ha hb hc hd, ih hpairs]
    rfl

/-- The first faulty text is the one that is reported. -/
lemma readPieces_eq_error_iff :
    readPieces ws = .error e ↔
      ∃ w, ws.find? (fun w => decide (IsFaulty w)) = some w ∧
        e = .badEntry (String.ofList (trim w)) := by
  induction ws with
  | nil => simp [readPieces, pure, Except.pure]
  | cons w ws ih =>
    by_cases hblank : w.all isBlank = true
    · have hsound : ¬IsFaulty w := fun h =>
        Bool.false_ne_true (h.1.symm.trans hblank)
      rw [readPieces_cons_of_blank hblank, ih, List.find?_cons_of_neg (by simpa using hsound)]
    · rw [Bool.not_eq_true] at hblank
      have herror := fun e => readEntry_eq_error_iff (e := e) hblank
      rw [readPieces_cons hblank, bind_eq_error, herror]
      -- behind an entry that is sound, the first faulty text is that of the rest
      by_cases hfaulty : IsFaulty w
      · have hok : ¬∃ p, readEntry (trim w) = .ok p ∧
            (readPieces ws).map (p :: ·) = .error e := by
          rintro ⟨p, hp, -⟩
          rw [(herror _).2 ⟨hfaulty, rfl⟩] at hp
          cases hp
        rw [or_iff_left hok, List.find?_cons_of_pos (by simpa using hfaulty)]
        simp [hfaulty]
      · obtain ⟨p, hp⟩ : ∃ p, readEntry (trim w) = .ok p := by
          cases hread : readEntry (trim w) with
          | error e => exact absurd ((herror e).1 hread).1 hfaulty
          | ok p => exact ⟨p, rfl⟩
        rw [List.find?_cons_of_neg (by simpa using hfaulty), ← ih, hp]
        simp [hfaulty, map_eq_error]

/-- The first faulty text between the semicolons is the one that a search finds. -/
lemma isFirstFaulty_iff (spec : List Char) :
    IsFirstFaulty spec w ↔
      (spec.splitOn ';').find? (fun w => decide (IsFaulty w)) = some w := by
  rw [List.find?_eq_some_iff_append]
  constructor
  · rintro ⟨earlier, later, rfl, hws, hsound, hfaulty⟩
    refine ⟨by simpa using hfaulty, earlier, later, ?_, by simpa using hsound⟩
    exact List.splitOn_intercalate _ hws (by simp)
  · rintro ⟨hfaulty, earlier, later, hsplit, hsound⟩
    refine ⟨earlier, later, ?_, fun v hv hmem => ?_, by simpa using hsound, by simpa using hfaulty⟩
    · rw [← hsplit, List.intercalate_splitOn]
    · rw [← hsplit, List.splitOn_eq_splitOnP] at hv
      simpa using not_of_mem_splitOnP hv hmem

/-- **Options written as texts.**  Pairs of keys and values that are written in any way are read as
the map in which later pairs overwrite earlier ones with their keys.  A text is refused if and only
if it has a faulty entry, and the first one is reported, trimmed. -/
theorem read_written :
    (∀ pairs ws, (∀ p ∈ pairs, IsPair p) → Written pairs ws →
      ∃ opts, read (String.ofList ([';'].intercalate ws)) = .ok opts ∧
        ∀ k v, (k, v) ∈ opts.entries ↔
          ∃ earlier later, pairs = earlier ++ (k, v) :: later ∧ k ∉ later.map Prod.fst) ∧
      ∀ spec e, read spec = .error e ↔
        ∃ w, IsFirstFaulty spec.toList w ∧ e = .badEntry (String.ofList (trim w)) := by
  refine ⟨fun pairs ws hpairs hwritten => ⟨KeyMap.ofList pairs, ?_, ?_⟩, fun spec e => ?_⟩
  · rw [read_intercalate (hwritten.not_mem_semicolon hpairs), hwritten.readPieces_eq hpairs]
    rfl
  · exact KeyMap.mem_entries_ofList_iff pairs
  · rw [read_eq_map_readPieces, map_eq_error, readPieces_eq_error_iff]
    simp only [isFirstFaulty_iff]

/-- A key that is written twice, with white space, an empty entry and a value with an equals sign:
the later value is the one that counts. -/
theorem read_written_twice :
    (∀ p ∈ [("a", "1"), ("a", "x=y")], IsPair p) ∧
      Written [("a", "1"), ("a", "x=y")] [" a\t= 1".toList, [], "a=x=y ".toList] ∧
      ∃ opts, read " a\t= 1;;a=x=y " = .ok opts ∧ ("a", "x=y") ∈ opts.entries ∧
        ("a", "1") ∉ opts.entries := by
  have hpairs : ∀ p ∈ [("a", "1"), ("a", "x=y")], IsPair p := by
    refine List.forall_mem_cons.2 ⟨?_, List.forall_mem_singleton.2 ?_⟩ <;>
      constructor <;> decide
  have hwritten : Written [("a", "1"), ("a", "x=y")]
      [" a\t= 1".toList, [], "a=x=y ".toList] := by
    refine .entry (p := ("a", "1")) (a := [' ']) (b := ['\t']) (c := [' ']) (d := []) ?_ ?_ ?_ ?_
      (.blank ?_ (.entry (p := ("a", "x=y")) (a := []) (b := []) (c := []) (d := [' ']) ?_ ?_ ?_ ?_
        .nil)) <;> decide
  obtain ⟨opts, hread, hentries⟩ := read_written.1 _ _ hpairs hwritten
  have hlast := (hentries "a" "x=y").2 ⟨[("a", "1")], [], rfl, List.not_mem_nil⟩
  refine ⟨hpairs, hwritten, opts, hread, hlast, fun hfirst => ?_⟩
  have hget := (KeyMap.get?_eq_some_iff opts "a" "1").2 hfirst
  rw [(KeyMap.get?_eq_some_iff opts "a" "x=y").2 hlast] at hget
  exact absurd hget (by decide)

end Options

end LinearInterchange
