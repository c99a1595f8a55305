/-! # Maps with text keys

A finite map from texts to values, kept as a list of entries in increasing order of keys. The
order of texts by characters is also the order of their UTF-8 bytes. -/

namespace LinearInterchange

/-- A finite map from texts, its entries in strictly increasing order of keys. -/
structure KeyMap (β : Type) where
  entries : List (String × β)
  sorted : entries.Pairwise fun a b => a.1 < b.1
  deriving DecidableEq

namespace KeyMap

variable {β : Type}

/-- The map without entries. -/
def empty : KeyMap β := ⟨[], .nil⟩

instance : Inhabited (KeyMap β) := ⟨empty⟩

/-- The entries with the value of one key set. -/
def insertEntry (k : String) (v : β) : List (String × β) → List (String × β)
  | [] => [(k, v)]
  | (l, w) :: rest =>
    if k < l then (k, v) :: (l, w) :: rest
    else if l < k then (l, w) :: insertEntry k v rest
    else (k, v) :: rest

theorem mem_insertEntry {k : String} {v : β} {es : List (String × β)} {e : String × β}
    (h : e ∈ insertEntry k v es) : e = (k, v) ∨ e ∈ es := by
  induction es with
  | nil => simpa [insertEntry] using h
  | cons x rest ih =>
    obtain ⟨l, w⟩ := x
    unfold insertEntry at h
    split at h
    · simpa using h
    · split at h
      · rcases List.mem_cons.1 h with h | h
        · exact .inr (h ▸ List.mem_cons_self)
        · exact (ih h).imp_right (List.mem_cons_of_mem _)
      · rcases List.mem_cons.1 h with h | h
        · exact .inl h
        · exact .inr (List.mem_cons_of_mem _ h)

theorem insertEntry_sorted {k : String} {v : β} {es : List (String × β)}
    (h : es.Pairwise fun a b => a.1 < b.1) :
    (insertEntry k v es).Pairwise fun a b => a.1 < b.1 := by
  induction es with
  | nil => simp [insertEntry]
  | cons x rest ih =>
    obtain ⟨l, w⟩ := x
    obtain ⟨hl, hrest⟩ := List.pairwise_cons.1 h
    unfold insertEntry
    split
    next hk =>
      refine List.pairwise_cons.2 ⟨fun e he => ?_, h⟩
      rcases List.mem_cons.1 he with rfl | he
      · exact hk
      · exact String.lt_trans hk (hl e he)
    next hk =>
      split
      next hlk =>
        refine List.pairwise_cons.2 ⟨fun e he => ?_, ih hrest⟩
        rcases mem_insertEntry he with rfl | he
        · exact hlk
        · exact hl e he
      next hlk =>
        obtain rfl : k = l := String.le_antisymm (String.not_lt.1 hlk) (String.not_lt.1 hk)
        exact List.pairwise_cons.2 ⟨hl, hrest⟩

/-- Sets the value of a key, whether or not the key had one. -/
def insert (m : KeyMap β) (k : String) (v : β) : KeyMap β :=
  ⟨insertEntry k v m.entries, insertEntry_sorted m.sorted⟩

/-- The value of a key. -/
def get? (m : KeyMap β) (k : String) : Option β :=
  (m.entries.find? (·.1 = k)).map (·.2)

/-- The map that results from setting the entries of a list one after another. -/
def ofList (es : List (String × β)) : KeyMap β :=
  es.foldl (fun m e => m.insert e.1 e.2) empty

/-- The keys in increasing order. -/
def keys (m : KeyMap β) : List String :=
  m.entries.map (·.1)

/-- There are no entries. -/
def isEmpty (m : KeyMap β) : Bool :=
  m.entries.isEmpty

@[simp] theorem get?_empty (k : String) : (empty : KeyMap β).get? k = none := rfl

theorem find?_insertEntry (k l : String) (v : β) (es : List (String × β)) :
    ((insertEntry k v es).find? (·.1 = l)).map (·.2)
      = if k = l then some v else (es.find? (·.1 = l)).map (·.2) := by
  induction es with
  | nil => by_cases h : k = l <;> simp [insertEntry, h]
  | cons x rest ih =>
    obtain ⟨n, w⟩ := x
    unfold insertEntry
    split
    next hk =>
      by_cases h : k = l
      · simp [h]
      · by_cases hn : n = l <;> simp [h, hn]
    next hk =>
      split
      next hnk =>
        by_cases hn : n = l
        · subst hn
          have : k ≠ n := fun h => String.lt_irrefl n (h ▸ hnk)
          simp [this]
        · by_cases h : k = l
          · subst h; simpa [List.find?_cons, hn] using ih
          · simpa [List.find?_cons, hn, h] using ih
      next hnk =>
        -- neither key is before the other, so the entry is overwritten
        obtain rfl : k = n := String.le_antisymm (String.not_lt.1 hnk) (String.not_lt.1 hk)
        by_cases h : k = l <;> simp [h]

/-- A look-up after setting a key finds the new value there and the old ones elsewhere. -/
theorem get?_insert (m : KeyMap β) (k l : String) (v : β) :
    (m.insert k v).get? l = if k = l then some v else m.get? l :=
  find?_insertEntry k l v m.entries

end KeyMap

end LinearInterchange
