import SmcTp.Mapping.Masks
import SmcTp.Programs.PackedFields

/-!
# Identifiers of initiators

`indexForId` folds an index of the hierarchy into one number, level after level, each shifted
in by the width of its level.  `getIdMaskingTable` takes a level out again: it drops the
widths of the levels below and keeps the bits of its own.

The fold is on an `int`.  With 30 bits at most it never leaves the range of
`PackedFields.pack`, so a level is read back as it was packed (`ids_round_trip`).
-/

namespace SmcTp.Mapping

open PackedFields

/-- `IntTab::operator*`, on an `int`.  It throws when the levels do not match. -/
def IntTab.mul (t widths : IntTab) : Option (BitVec 32) :=
  if widths.level ≠ t.level then none
  else some ((t.values.zip widths.values).foldl
    (fun ret v => (ret <<< (v.2 % 32).toNat) + BitVec.ofInt 32 v.1) 0)

/-- `MappingTable::indexForId`. -/
def indexForId (levelIdBits index : IntTab) : Option (BitVec 32) := index.mul levelIdBits

/-- `MappingTable::getIdMaskingTable`.  It throws when the level is out of bounds. -/
def getIdMaskingTable (levelIdBits : IntTab) (level : Nat) : Option AddressMaskingTable :=
  (levelIdBits.get? level).map fun use =>
    AddressMaskingTable.init use (levelIdBits.values.drop (level + 1)).sum

/-- Widths of 30 bits in all. -/
structure IntTab.IsWidths (widths : IntTab) : Prop where
  nonneg : ∀ w ∈ widths.values, 0 ≤ w
  sum_le : widths.sum 10 ≤ 30

/-- An index with the levels of the widths, each number within the width of its level. -/
structure IntTab.FitsIn (index widths : IntTab) : Prop where
  level : index.level = widths.level
  lt : ∀ l < widths.level, ∃ v w, index.get? l = some v ∧ widths.get? l = some w ∧
    0 ≤ v ∧ v < 2 ^ w.toNat

/-! ## The packed fields -/

/-- The numbers of an index with their widths. -/
def fields (index widths : IntTab) : List (Nat × Nat) :=
  (index.values.zip widths.values).map fun v => (v.1.toNat, v.2.toNat)

/-- One step of the fold, on numbers that fit. -/
theorem toNat_shift_add {ret : BitVec 32} {v w : Int} {a : Nat} (hret : ret.toNat < 2 ^ a)
    (hw : 0 ≤ w) (hv : 0 ≤ v) (hlt : v.toNat < 2 ^ w.toNat) (ha : a + w.toNat ≤ 30) :
    ((ret <<< (w % 32).toNat) + BitVec.ofInt 32 v).toNat = ret.toNat * 2 ^ w.toNat + v.toNat := by
  have hfit : pack ret.toNat [(v.toNat, w.toNat)] < 2 ^ (a + w.toNat) :=
    pack_lt (fun f hf => by rw [List.mem_singleton.mp hf]; exact hlt)
      hret
  rw [pack_cons, pack_nil] at hfit
  have hbound : (2 : Nat) ^ (a + w.toNat) ≤ 2 ^ 30 := Nat.pow_le_pow_right (by decide) ha
  have hword : ret.toNat * 2 ^ w.toNat + v.toNat < 2 ^ 32 :=
    Nat.lt_of_lt_of_le hfit (Nat.le_trans hbound (by decide))
  have hmod : (w % 32).toNat = w.toNat := by omega
  obtain ⟨n, rfl⟩ := Int.eq_ofNat_of_zero_le hv
  rw [Int.toNat_natCast] at hword ⊢
  rw [hmod, BitVec.toNat_add, BitVec.toNat_shiftLeft, Nat.shiftLeft_eq, BitVec.ofInt_natCast,
    BitVec.toNat_ofNat, Nat.mod_eq_of_lt (Nat.lt_of_le_of_lt (Nat.le_add_right _ n) hword),
    Nat.mod_eq_of_lt (Nat.lt_of_le_of_lt (Nat.le_add_left n _) hword), Nat.mod_eq_of_lt hword]

/-- The fold is the packing of the fields. -/
theorem toNat_fold {l : List (Int × Int)} (hw : ∀ f ∈ l, 0 ≤ f.2)
    (hv : ∀ f ∈ l, 0 ≤ f.1 ∧ f.1.toNat < 2 ^ f.2.toNat) {ret : BitVec 32} {a : Nat}
    (hret : ret.toNat < 2 ^ a) (ha : a + width (l.map fun f => (f.1.toNat, f.2.toNat)) ≤ 30) :
    (l.foldl (fun ret v => (ret <<< (v.2 % 32).toNat) + BitVec.ofInt 32 v.1) ret).toNat =
      pack ret.toNat (l.map fun f => (f.1.toNat, f.2.toNat)) := by
  induction l generalizing ret a with
  | nil => rfl
  | cons f l ih =>
      obtain ⟨hv0, hlt⟩ := hv f List.mem_cons_self
      rw [List.map_cons, width_cons] at ha
      have hstep := toNat_shift_add hret (hw f List.mem_cons_self) hv0 hlt (by omega)
      have hnext : pack ret.toNat [(f.1.toNat, f.2.toNat)] < 2 ^ (a + f.2.toNat) :=
        pack_lt (fun g hg => by rw [List.mem_singleton.mp hg]; exact hlt) hret
      rw [List.foldl_cons, List.map_cons, pack_cons, ← hstep]
      refine ih (fun g hg => hw g (List.mem_cons_of_mem _ hg))
        (fun g hg => hv g (List.mem_cons_of_mem _ hg)) (a := a + f.2.toNat) ?_ (by omega)
      rw [hstep]
      exact hnext

/-! ## Levels of an index -/

section Levels

variable {index index' widths : IntTab}

namespace IntTab

theorem get?_eq {t : IntTab} {l : Nat} (hl : l < t.level) : t.get? l = some t.values[l] := by
  rw [get?, if_neg (Nat.lt_asymm hl), List.getElem?_eq_getElem hl]
  rfl

/-- The sum over all levels. -/
theorem sum_all (t : IntTab) : t.sum 10 = t.values.sum := by
  rw [sum, List.take_of_length_le (Nat.le_of_lt t.level_lt)]

namespace FitsIn

theorem length_eq (h : index.FitsIn widths) : index.values.length = widths.values.length := h.level

theorem number_lt (h : index.FitsIn widths) {l : Nat} (hi : l < index.values.length)
    (hl : l < widths.values.length) :
    0 ≤ index.values[l] ∧ index.values[l] < 2 ^ widths.values[l].toNat := by
  obtain ⟨v, w, hv, hw, hrange⟩ := h.lt l hl
  rw [get?_eq hi] at hv
  rw [get?_eq hl] at hw
  cases hv
  cases hw
  exact hrange

end FitsIn

end IntTab

theorem length_fields (h : index.FitsIn widths) : (fields index widths).length = widths.level := by
  rw [fields, List.length_map, List.length_zip, h.length_eq, Nat.min_self]
  rfl

theorem getElem_fields {l : Nat} (hl : l < (fields index widths).length)
    (hi : l < index.values.length) (hw : l < widths.values.length) :
    (fields index widths)[l] = (index.values[l].toNat, widths.values[l].toNat) := by
  simp only [fields, List.getElem_map, List.getElem_zip]

theorem toNat_lt_two_pow {v : Int} {n : Nat} (hv : 0 ≤ v) (hlt : v < 2 ^ n) : v.toNat < 2 ^ n := by
  obtain ⟨m, rfl⟩ := Int.eq_ofNat_of_zero_le hv
  exact_mod_cast hlt

theorem fit_fields (h : index.FitsIn widths) : Fit (fields index widths) := by
  intro f hf
  obtain ⟨l, hl, rfl⟩ := List.getElem_of_mem hf
  have hw : l < widths.values.length := by
    rw [length_fields h] at hl
    exact hl
  have hi : l < index.values.length := by
    rw [h.length_eq]
    exact hw
  obtain ⟨hv, hlt⟩ := h.number_lt hi hw
  rw [getElem_fields hl hi hw]
  exact toNat_lt_two_pow hv hlt

/-- The widths of the levels from `n` on. -/
theorem width_drop_fields (hwidths : widths.IsWidths) (h : index.FitsIn widths) (n : Nat) :
    (width ((fields index widths).drop n) : Int) = (widths.values.drop n).sum := by
  have hsnd : (fields index widths).map Prod.snd = widths.values.map Int.toNat := by
    have hzip : (index.values.zip widths.values).map Prod.snd = widths.values :=
      List.map_snd_zip (Nat.le_of_eq h.length_eq.symm)
    rw [fields, List.map_map, ← hzip, List.map_map, hzip]
    rfl
  have hmap : ((fields index widths).drop n).map Prod.snd =
      (widths.values.drop n).map Int.toNat := by
    rw [List.map_drop, hsnd, List.map_drop]
  rw [width, hmap]
  have hnonneg : ∀ w ∈ widths.values.drop n, 0 ≤ w := fun w hw =>
    hwidths.nonneg w (List.mem_of_mem_drop hw)
  generalize widths.values.drop n = ws at hnonneg
  induction ws with
  | nil => rfl
  | cons w ws ih =>
      have hw := hnonneg w List.mem_cons_self
      rw [List.map_cons, List.sum_cons, List.sum_cons, Int.natCast_add,
        ih fun u hu => hnonneg u (List.mem_cons_of_mem _ hu), Int.toNat_of_nonneg hw]

theorem width_fields (hwidths : widths.IsWidths) (h : index.FitsIn widths) :
    (width (fields index widths) : Int) = widths.sum 10 := by
  rw [IntTab.sum_all]
  exact width_drop_fields hwidths h 0

end Levels

/-! ## Encoding and decoding -/

/-- The low bits of a word. -/
theorem toNat_and_low {n : Nat} (hn : n < 32) (x : Addr) :
    (x &&& (1#32 <<< n - 1)).toNat = x.toNat % 2 ^ n := by
  have hone := toNat_one_shl hn
  have hle : (1 : Addr) ≤ 1#32 <<< n := by
    rw [BitVec.le_def, hone, Nat.one_shiftLeft]
    exact Nat.two_pow_pos n
  rw [BitVec.toNat_and, BitVec.toNat_sub_of_le hle, hone, Nat.one_shiftLeft]
  exact Nat.and_two_pow_sub_one_eq_mod _ n

section RoundTrip

variable {index widths : IntTab}

theorem indexForId_eq (hwidths : widths.IsWidths) (h : index.FitsIn widths) :
    ∃ id, indexForId widths index = some id ∧ id.toNat = pack 0 (fields index widths) := by
  have hwidth := width_fields hwidths h
  have hsum := hwidths.sum_le
  refine ⟨_, if_neg (fun hne => hne h.level.symm), ?_⟩
  refine toNat_fold (fun f hf => hwidths.nonneg _ (List.of_mem_zip hf).2) ?_ (a := 0) Nat.one_pos ?_
  · intro f hf
    obtain ⟨l, hl, rfl⟩ := List.getElem_of_mem hf
    rw [List.getElem_zip]
    rw [List.length_zip] at hl
    obtain ⟨hv, hlt⟩ := h.number_lt (l := l) (by omega) (by omega)
    exact ⟨hv, toNat_lt_two_pow hv hlt⟩
  · show 0 + width (fields index widths) ≤ 30
    omega

/-- The table of a level takes the number of the level out of an identifier. -/
theorem get_idMaskingTable (hwidths : widths.IsWidths) (h : index.FitsIn widths) {id : BitVec 32}
    (hid : id.toNat = pack 0 (fields index widths)) {l : Nat} (hl : l < widths.level) :
    ∃ t, getIdMaskingTable widths l = some t ∧ index.get? l = some ((t.get id).toNat : Int) := by
  have hlen := length_fields h
  have hi : l < index.level := h.level ▸ hl
  have hf : l < (fields index widths).length := hlen ▸ hl
  have hdrop := width_drop_fields hwidths h (l + 1)
  have hwidth := width_fields hwidths h
  have hsum := hwidths.sum_le
  have hw0 := hwidths.nonneg _ (List.getElem_mem hl)
  obtain ⟨hv, hlt⟩ := h.number_lt hi hl
  have hsplit : fields index widths =
      (fields index widths).take l ++
        (fields index widths)[l] :: (fields index widths).drop (l + 1) :=
    by rw [List.getElem_cons_drop, List.take_append_drop]
  have hfield := pack_field ((fields index widths).take l) ((fields index widths).drop (l + 1))
    (fit_fields h _ (List.getElem_mem hf)) fun g hg => fit_fields h g (List.mem_of_mem_drop hg)
  rw [← hsplit, getElem_fields hf hi hl, ← hid] at hfield
  have htotal : widths.values[l].toNat + width ((fields index widths).drop (l + 1)) ≤ 30 := by
    have hparts : width (fields index widths) = width ((fields index widths).take l) +
        (widths.values[l].toNat + width ((fields index widths).drop (l + 1))) := by
      conv_lhs => rw [hsplit]
      rw [width, List.map_append, List.sum_append, List.map_cons, List.sum_cons,
        getElem_fields hf hi hl]
      rfl
    omega
  refine ⟨_, by rw [getIdMaskingTable, IntTab.get?_eq hl, Option.map_some], ?_⟩
  rw [IntTab.get?_eq hi, Option.some_inj, AddressMaskingTable.get, AddressMaskingTable.init,
    ← hdrop]
  have hcount : (((width ((fields index widths).drop (l + 1)) : Nat) : Int) % 32).toNat =
      width ((fields index widths).drop (l + 1)) := by omega
  have hbits : shl1 (widths.values[l].toNat : Int) = 1#32 <<< widths.values[l].toNat :=
    Contiguous.shl1_eq (by omega)
  rw [Int.toNat_of_nonneg hw0] at hbits
  rw [hcount, hbits, toNat_and_low (by omega), BitVec.toNat_ushiftRight,
    Nat.shiftRight_eq_div_pow, hfield, Int.toNat_of_nonneg hv]

/-- Indexes with the same numbers on all levels are the same. -/
theorem IntTab.FitsIn.ext {index' : IntTab} (h : index.FitsIn widths) (h' : index'.FitsIn widths)
    (heq : ∀ l < widths.level, index.get? l = index'.get? l) : index = index' := by
  refine IntTab.ext (List.ext_getElem (h.length_eq.trans h'.length_eq.symm) fun l hl hl' => ?_)
  have hlevel : l < widths.level := h.level ▸ hl
  have hget := heq l hlevel
  rw [IntTab.get?_eq hl, IntTab.get?_eq hl'] at hget
  exact Option.some.inj hget

/-- An identifier is below `2` to the sum of the widths, the masking table of each level
gives the number of the index at the level, and no other index has this identifier. -/
theorem ids_round_trip (hwidths : widths.IsWidths) (h : index.FitsIn widths) :
    ∃ id, indexForId widths index = some id ∧ id.toNat < 2 ^ (widths.sum 10).toNat ∧
      (∀ l < widths.level, ∃ t, getIdMaskingTable widths l = some t ∧
        index.get? l = some ((t.get id).toNat : Int)) ∧
      ∀ index' : IntTab, index'.FitsIn widths → indexForId widths index' = some id →
        index' = index := by
  obtain ⟨id, hid, hpack⟩ := indexForId_eq hwidths h
  refine ⟨id, hid, ?_, fun l hl => get_idMaskingTable hwidths h hpack hl, ?_⟩
  · have hlt := pack_lt (fit_fields h) (r := 0) (a := 0) Nat.one_pos
    rw [← width_fields hwidths h, Int.toNat_natCast, hpack]
    rwa [Nat.zero_add] at hlt
  · intro index' h' hsame
    obtain ⟨id', hid', hpack'⟩ := indexForId_eq hwidths h'
    obtain rfl : id' = id := Option.some.inj (hid'.symm.trans hsame)
    refine h'.ext h fun l hl => ?_
    obtain ⟨t, ht, hget⟩ := get_idMaskingTable hwidths h hpack hl
    obtain ⟨t', ht', hget'⟩ := get_idMaskingTable hwidths h' hpack' hl
    obtain rfl : t = t' := Option.some.inj (ht.symm.trans ht')
    rw [hget, hget']

end RoundTrip

/-! ## Three levels, one without bits -/

/-- Two bits for the cluster, none for the board, three for the initiator. -/
def idWidths : IntTab := ⟨[2, 0, 3], by decide, by decide⟩

/-- Initiator 5 of cluster 3. -/
def dmaIndex : IntTab := ⟨[3, 0, 5], by decide, by decide⟩

theorem dmaIndex_round_trip :
    ∃ id, indexForId idWidths dmaIndex = some id ∧ id.toNat < 2 ^ (idWidths.sum 10).toNat ∧
      (∀ l < idWidths.level, ∃ t, getIdMaskingTable idWidths l = some t ∧
        dmaIndex.get? l = some ((t.get id).toNat : Int)) ∧
      ∀ index' : IntTab, index'.FitsIn idWidths → indexForId idWidths index' = some id →
        index' = dmaIndex := by
  refine ids_round_trip ⟨by decide, by decide⟩ ⟨rfl, fun l hl => ?_⟩
  have hlevel : l = 0 ∨ l = 1 ∨ l = 2 := by
    have hl : l < 3 := hl
    omega
  rcases hlevel with rfl | rfl | rfl
  · exact ⟨3, 2, rfl, rfl, by decide, by decide⟩
  · exact ⟨0, 0, rfl, rfl, by decide, by decide⟩
  · exact ⟨5, 3, rfl, rfl, by decide, by decide⟩

end SmcTp.Mapping
