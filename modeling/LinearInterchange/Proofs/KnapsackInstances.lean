import LinearInterchange.Format.Knapsack.Basic
import LinearInterchange.Proofs.SoundInstances

/-!
# Knapsacks as instances

A knapsack becomes an instance as long as there are ids for its items.  Its items are numbered from
one, so their variables have different ids and different names, and nothing that is declared or
added on the way can be refused.
-/

namespace LinearInterchange.Knapsack

open Text

variable {k : Knapsack} {inst : Instance} {n : ℕ} {v : Var}

/-! ## The variables of items -/

/-- An item has a variable if its number is an id. -/
lemma itemVar_eq_ok_iff : itemVar n = .ok v ↔ v.id.toNat = n := by
  have hmax : Var.maxId.toNat = 4294967294 := rfl
  have hsize : UInt32.size = 4294967296 := rfl
  constructor
  · intro h
    unfold itemVar at h
    split at h
    case isFalse => cases h
    case isTrue hn =>
      have hid := Var.id_of_ofId (mapError_eq_ok.1 h)
      rw [hid, UInt32.toNat_ofNat_of_lt' hn]
  · rintro rfl
    have hlt : v.id.toNat < UInt32.size := v.id.toNat_lt_size
    rw [itemVar, if_pos hlt, UInt32.ofNat_toNat, Var.ofId, dif_pos v.id_le]
    rfl

lemma toNat_id_le (v : Var) : v.id.toNat ≤ Var.maxId.toNat :=
  UInt32.le_iff_toNat_le.1 v.id_le

/-- Every number up to the highest id is that of a variable. -/
lemma exists_itemVar (h : n ≤ Var.maxId.toNat) : ∃ v, itemVar n = .ok v := by
  have hmax : Var.maxId.toNat = 4294967294 := rfl
  have hsize : UInt32.size = 4294967296 := rfl
  have hid : (UInt32.ofNat n).toNat = n := UInt32.toNat_ofNat_of_lt' (by omega)
  have hle : UInt32.ofNat n ≤ Var.maxId := UInt32.le_iff_toNat_le.2 (by rwa [hid])
  exact ⟨⟨UInt32.ofNat n, hle⟩, itemVar_eq_ok_iff.2 hid⟩

/-- An item with its number and its variable. -/
abbrev Numbered := KnapsackItem × ℕ × Var

/-- The variable that is declared for a numbered item. -/
def Numbered.variable (x : Numbered) : Variable :=
  ⟨x.2.2, "x" ++ toString x.2.1, .bool, .user⟩

/-- Items are numbered in order, from one on, and the numbers are the ids of their variables. -/
lemma numbered_ok {items : List Numbered} (h : k.numbered = .ok items) :
    items.map (fun x => (x.1, x.2.1)) = k.items.zipIdx 1 ∧
      ∀ x ∈ items, x.2.2.id.toNat = x.2.1 := by
  rw [numbered, mapM_eq_ok] at h
  generalize k.items.zipIdx 1 = numbers at h
  induction h with
  | nil => exact ⟨rfl, by simp⟩
  | cons hx _ ih =>
    obtain ⟨v, hv, hx⟩ := bind_eq_ok.1 hx
    obtain rfl := Except.ok.inj hx
    refine ⟨by rw [List.map_cons, ih.1], ?_⟩
    exact List.forall_mem_cons.2 ⟨itemVar_eq_ok_iff.1 hv, ih.2⟩

/-- The numbers of the items go from one up to the number of items. -/
lemma numbers_of_numbered {items : List Numbered} (h : k.numbered = .ok items) :
    items.map (·.2.1) = List.range' 1 k.items.length := by
  have hsnd := congrArg (List.map Prod.snd) (numbered_ok h).1
  rwa [List.map_map, List.zipIdx_map_snd] at hsnd

/-- There are no more numbered items than ids. -/
lemma length_le_of_numbered {items : List Numbered} (h : k.numbered = .ok items) :
    k.items.length ≤ Var.maxId.toNat := by
  by_cases hzero : k.items.length = 0
  · omega
  · have hlast : k.items.length ∈ items.map (·.2.1) := by
      rw [numbers_of_numbered h, List.mem_range'_1]
      omega
    obtain ⟨x, hx, hnumber⟩ := List.mem_map.1 hlast
    rw [← hnumber, ← (numbered_ok h).2 x hx]
    exact toNat_id_le x.2.2

/-- Items can be numbered if there are no more of them than ids. -/
lemma exists_numbered (h : k.items.length ≤ Var.maxId.toNat) : ∃ items, k.numbered = .ok items := by
  have hall : Settles (fun _ => False) (fun r => ∀ x ∈ r, True) k.numbered := by
    refine Settles.mapM fun ⟨item, n⟩ hx => ?_
    have hn := (List.mem_zipIdx hx).2.1
    obtain ⟨v, hv⟩ := exists_itemVar (n := n) (by omega)
    simp only [hv]
    trivial
  obtain ⟨items, hitems, -⟩ := hall.exists_ok
  exact ⟨items, hitems⟩

/-! ## The instance of a knapsack -/

/-- The variables of items with different numbers are declared one after another. -/
lemma declare_items (hinst : inst.Registered) {items : List Numbered}
    (hids : ((inst.vars ++ items.map Numbered.variable).map (·.var)).Nodup)
    (hnames : ((inst.vars ++ items.map Numbered.variable).map (·.name)).Nodup) :
    items.foldlM (fun inst (_, n, v) =>
        (inst.declareWithId v ("x" ++ toString n) .bool).mapError fun _ =>
          Assumption.itemVariable) inst =
      .ok (inst.appendAll (items.map Numbered.variable)) := by
  induction items generalizing inst with
  | nil => rfl
  | cons x items ih =>
    rw [List.map_cons] at hids hnames
    have hnew : inst.IsNew x.variable := hinst.isNew_of_nodup hids hnames
    rw [List.append_cons, ← hinst.vars_append hnew] at hids hnames
    rw [List.foldlM_cons]
    exact bind_eq_ok.2 ⟨_, mapError_eq_ok.2 (Instance.declareWithId_of_new hnew),
      ih (hinst.append hnew) hids hnames⟩

/-- Different numbers make different names. -/
lemma nodup_names {ns : List ℕ} (h : ns.Nodup) : (ns.map fun n => "x" ++ toString n).Nodup := by
  refine h.map fun m n hmn => ?_
  have hdigits := congrArg String.toList hmn
  rw [String.toList_append, String.toList_append, toList_toString_nat,
    toList_toString_nat] at hdigits
  rw [← valueOf_toDigits m, List.append_cancel_left hdigits, valueOf_toDigits]

/-- A knapsack whose items are numbered is an instance over their variables. -/
lemma toInstance_of_numbered {items : List Numbered} (h : k.numbered = .ok items) :
    k.toInstance = .ok
      { Instance.appendAll { name := some k.name } (items.map Numbered.variable) with
        constrs := [⟨items.map fun x => ⟨.ofWord x.1.weight, x.2.2⟩, .le, .ofWord k.capacity⟩]
        objective := ⟨.maximize, items.map fun x => ⟨.ofWord x.1.profit, x.2.2⟩⟩ } := by
  have hnumbers : (items.map (·.2.1)).Nodup := numbers_of_numbered h ▸ List.nodup_range'
  have hids : (items.map fun x => x.variable.var).Nodup := by
    have hmap : items.map (·.2.1) = (items.map fun x => x.variable.var).map (·.id.toNat) := by
      rw [List.map_map]
      exact List.map_congr_left fun x hx => ((numbered_ok h).2 x hx).symm
    rw [hmap] at hnumbers
    exact hnumbers.of_map _
  have hnames : (items.map fun x => x.variable.name).Nodup := by
    have hmap := nodup_names hnumbers
    rwa [List.map_map] at hmap
  set named : Instance := { name := some k.name } with hnamed
  have hreg : named.Registered := Instance.wellFormed_empty.toRegistered.replace (some k.name) [] {}
  have hvarids : ((named.vars ++ items.map Numbered.variable).map (·.var)).Nodup := by
    simpa [hnamed, Instance.vars, Function.comp_def] using hids
  have hvarnames : ((named.vars ++ items.map Numbered.variable).map (·.name)).Nodup := by
    simpa [hnamed, Instance.vars, Function.comp_def] using hnames
  obtain ⟨hreg', hvars⟩ := hreg.appendAll _ hvarids hvarnames
  -- every term is over the variable of an item
  have hdeclared : ∀ coeff : Numbered → Coeff,
      (named.appendAll (items.map Numbered.variable)).DeclaresAll
        (items.map fun x => ⟨coeff x, x.2.2⟩) := by
    intro coeff t ht
    obtain ⟨x, hx, rfl⟩ := List.mem_map.1 ht
    refine Instance.declares_of_mem (x := x.variable) ?_
    rw [hvars]
    exact List.mem_append_right _ (List.mem_map_of_mem hx)
  obtain ⟨-, hconstrs, -⟩ := named.appendAll_eq (items.map Numbered.variable)
  refine bind_eq_ok.2 ⟨items, h, bind_eq_ok.2 ⟨_, declare_items hreg hvarids hvarnames, ?_⟩⟩
  refine bind_eq_ok.2 ⟨_, mapError_eq_ok.2 (Instance.addConstr_of_declared (hdeclared _)), ?_⟩
  rw [hconstrs]
  exact mapError_eq_ok.2 (Instance.setObjective_of_declared (hdeclared _))

/-- A knapsack becomes an instance exactly if there are ids for its items. -/
lemma exists_toInstance_iff :
    (∃ inst, k.toInstance = .ok inst) ↔ k.items.length ≤ Var.maxId.toNat := by
  constructor
  · rintro ⟨inst, hinst⟩
    obtain ⟨items, hitems, -⟩ := bind_eq_ok.1 hinst
    exact length_le_of_numbered hitems
  · intro hlength
    obtain ⟨items, hitems⟩ := exists_numbered hlength
    exact ⟨_, toInstance_of_numbered hitems⟩

/-- The instance of a knapsack has its name. -/
lemma name_of_toInstance (h : k.toInstance = .ok inst) : inst.name = some k.name := by
  obtain ⟨items, hitems, -⟩ := bind_eq_ok.1 h
  rw [toInstance_of_numbered hitems] at h
  rw [← Except.ok.inj h]
  exact (Instance.appendAll_eq { name := some k.name } (items.map Numbered.variable)).1

/-- The name of the variable of an item is a word. -/
lemma isWord_itemName (n : ℕ) : IsWord ("x" ++ toString n).toList := by
  have htext : ("x" ++ toString n).toList = 'x' :: Nat.toDigits 10 n := by
    rw [String.toList_append, toList_toString_nat]
    rfl
  rw [htext]
  refine ⟨List.cons_ne_nil _ _, fun c hc => ?_⟩
  rcases List.mem_cons.1 hc with rfl | hc
  · decide
  · exact isBlank_of_isDigit (isDigit_of_mem hc)

/-- The instance of a knapsack is sound if its name can stand behind a keyword. -/
lemma sound_toInstance (hname : IsTitle k.name.toList) (h : k.toInstance = .ok inst) :
    inst.Sound := by
  obtain ⟨items, -, h⟩ := bind_eq_ok.1 h
  obtain ⟨inst₁, hvars, h⟩ := bind_eq_ok.1 h
  obtain ⟨inst₂, hconstr, h⟩ := bind_eq_ok.1 h
  have hempty : Instance.Sound { name := some k.name } := by
    refine Instance.sound_empty ?_
    rintro n ⟨⟩
    exact hname
  have hdeclared : inst₁.Sound := by
    refine Settles.of_ok (E := fun _ => True) (Settles.foldlM hempty ?_) hvars
    rintro ⟨item, n, v⟩ - inst hinst
    have hdeclare := hinst.declareWithId v (isWord_itemName n) Domain.nonempty_bool
    exact hdeclare.mapError fun _ _ => trivial
  have hconstrained := (hdeclared.addConstr _).of_ok (mapError_eq_ok.1 hconstr)
  exact (hconstrained.setObjective _).of_ok (mapError_eq_ok.1 h)

end LinearInterchange.Knapsack
