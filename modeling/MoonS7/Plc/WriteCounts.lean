import MoonS7.Plc.Lossless

/-!
# The element counts of a write

`build_write_pdu` divides the length of an item's data by the size of its word length, for every
item and before it looks at any of them: an unknown word length has the size zero, a remainder is
dropped, and no data counts as one element.

Main result: `writeEncodes_iff` -- the builder does not abort and every count it declares is that of
the data exactly if the data of every item is a whole number of elements.
-/

namespace MoonS7

open Records

/-- The items that the public constructors make. -/
inductive WriteItem.Public : WriteItem → Prop where
  | new (area : Area) (off : Int32) (dt : DataType) (d : List UInt8) :
      WriteItem.Public (WriteItem.new area off dt d)
  | withWordLen (area : Area) (off : Int32) (dt : DataType) (d : List UInt8) (wl : Int32) :
      WriteItem.Public (WriteItem.withWordLen area off dt d wl)
  | db (n off : Int32) (dt : DataType) (d : List UInt8) : WriteItem.Public (WriteItem.db n off dt d)
  | flag (off : Int32) (dt : DataType) (d : List UInt8) : WriteItem.Public (WriteItem.flag off dt d)

/-- The builder returns, and in the frame it returns the count of every item and the size of its
    word length are those of its data. -/
structure WriteEncodes (items : List WriteItem) (refn : Int32) : Prop where
  total : buildWritePdu items refn ≠ .error .abort
  exact : ∀ frame, buildWritePdu items refn = .ok frame → ∀ i it, items[i]? = some it →
    ∃ c, u16At frame (23 + 12 * i) = some c ∧ c * dataSizeByte it.wordLen = it.data.length

/-- The division has a divisor. -/
def WriteItem.Divides (it : WriteItem) : Prop := it.data ≠ [] → dataSizeByte it.wordLen ≠ 0

/-- The data of the item are whole elements; no data are the one element of an unknown word
    length. -/
def WriteItem.Whole (it : WriteItem) : Prop :=
  (it.data = [] ∧ dataSizeByte it.wordLen = 0) ∨
    (it.data ≠ [] ∧ dataSizeByte it.wordLen ∣ it.data.length)

section Counts

variable {items : List WriteItem} {it : WriteItem}

theorem WriteItem.Divides.params (h : it.Divides) : it.params = .ok it.sizedParams := by
  by_cases hd : it.data = []
  · unfold WriteItem.params WriteItem.sizedParams
    simp only [hd, List.length_nil, Nat.lt_one_iff, if_true]
  · exact it.params_ok (h hd)

theorem WriteItem.params_abort (hd : it.data ≠ []) (hs : dataSizeByte it.wordLen = 0) :
    it.params = .error .abort := by
  have hlen : ¬ it.data.length < 1 := Nat.not_lt.mpr (List.length_pos_of_ne_nil hd)
  unfold WriteItem.params
  rw [if_neg hlen, if_pos hs]

/-- The first division without a divisor ends the loop over the items. -/
theorem buildWritePdu_abort (h : ∃ it ∈ items, ¬ it.Divides) (refn : Int32) :
    buildWritePdu items refn = .error .abort := by
  have hm : items.mapM WriteItem.params = .error .abort := by
    induction items with
    | nil =>
      obtain ⟨_, hmem, -⟩ := h
      cases hmem
    | cons it items ih =>
      rw [List.mapM_cons]
      by_cases hit : it.Divides
      · obtain ⟨bad, hmem, hbad⟩ := h
        rcases List.mem_cons.mp hmem with rfl | hmem
        · exact absurd hit hbad
        · rw [hit.params, ih ⟨bad, hmem, hbad⟩]
          rfl
      · obtain ⟨hd, hs⟩ := Classical.not_imp.mp hit
        rw [WriteItem.params_abort hd (not_not.mp hs)]
        rfl
  unfold buildWritePdu
  rw [hm]
  rfl

/-- The builder, where every item has its count. -/
theorem buildWritePdu_divides (h : ∀ it ∈ items, it.Divides) (refn : Int32) :
    buildWritePdu items refn =
      if 15 + 12 * items.length + (items.map fun it => 4 + it.data.length).sum ≤ 960
      then .ok (packet refn ([pw, tb (Int32.ofNat items.length)] ++ items.flatMap WriteItem.sizedParams)
        (items.flatMap WriteItem.section))
      else err (.invalidPdu "PDU too big") := by
  have hp : (items.flatMap WriteItem.sizedParams).length = 12 * items.length :=
    Records.length_flatMap (fun _ => length_itemParams _ _ _ _ _) items
  have hc : 2 + (items.flatMap WriteItem.sizedParams).length +
      (items.flatMap WriteItem.section).length ≤ 947 ↔
      15 + 12 * items.length + (items.map fun it => 4 + it.data.length).sum ≤ 960 := by
    rw [hp, length_sections]
    omega
  rw [buildWritePdu_of_params fun it hit => (h it hit).params]
  simp only [hc]

/-- **The count of the `i`th item**, where the frame has it. -/
theorem u16At_count {i : Nat} (hi : items[i]? = some it) (refn : Int32) (wdata : List UInt8) :
    u16At (packet refn ([pw, tb (Int32.ofNat items.length)] ++ items.flatMap WriteItem.sizedParams)
      wdata) (23 + 12 * i) =
      some (bits (if it.data.length < 1 then 1
        else Int32.ofNat (it.data.length / dataSizeByte it.wordLen)) % 65536) := by
  have hat : ∀ j, j < 12 → (packet refn ([pw, tb (Int32.ofNat items.length)] ++
      items.flatMap WriteItem.sizedParams) wdata)[19 + (12 * i + j)]? = it.sizedParams[j]? := by
    intro j hj
    rw [← List.getElem?_drop, drop_packet]
    exact Records.getElem?_flatMap (fun _ => length_itemParams _ _ _ _ _) hi hj wdata
  have h4 := hat 4 (by decide)
  have h5 := hat 5 (by decide)
  rw [show 19 + (12 * i + 4) = 23 + 12 * i from by omega] at h4
  rw [show 19 + (12 * i + 5) = 23 + 12 * i + 1 from by omega] at h5
  rw [u16At, h4, h5, ← u16_hi8_lo8]
  rfl

/-- The count of an item is that of its data exactly if these are whole elements. -/
theorem WriteItem.count_exact_iff (hlen : it.data.length ≤ 943) :
    bits (if it.data.length < 1 then 1
      else Int32.ofNat (it.data.length / dataSizeByte it.wordLen)) % 65536 *
        dataSizeByte it.wordLen = it.data.length ↔ it.Whole := by
  by_cases hd : it.data = []
  · have hone : bits 1 % 65536 = 1 := by decide
    rw [Whole, hd, List.length_nil, if_pos Nat.one_pos, hone, Nat.one_mul]
    simp
  · have hpos : 0 < it.data.length := List.length_pos_of_ne_nil hd
    have hle : it.data.length / dataSizeByte it.wordLen ≤ it.data.length := Nat.div_le_self _ _
    have hcount : bits (Int32.ofNat (it.data.length / dataSizeByte it.wordLen)) % 65536 =
        it.data.length / dataSizeByte it.wordLen := by
      have hlt : it.data.length / dataSizeByte it.wordLen < 65536 := by omega
      rw [bits_ofNat, Nat.mod_eq_of_lt (Nat.lt_trans hlt (by decide)), Nat.mod_eq_of_lt hlt]
    rw [if_neg (by omega), hcount, Whole]
    constructor
    · exact fun he => Or.inr ⟨hd, Dvd.intro_left _ he⟩
    · rintro (⟨h0, -⟩ | ⟨-, hdvd⟩)
      · exact absurd h0 hd
      · exact Nat.div_mul_cancel hdvd

/-- **Writes are encoded exactly if** no item with data has an unknown word length, and in a job that
    is short enough the data of every item are whole elements. -/
theorem writeEncodes_iff (items : List WriteItem) (refn : Int32) :
    WriteEncodes items refn ↔ (∀ it ∈ items, it.Divides) ∧
      (15 + 12 * items.length + (items.map fun it => 4 + it.data.length).sum ≤ 960 →
        ∀ it ∈ items, it.Whole) := by
  by_cases hdiv : ∀ it ∈ items, it.Divides
  · have hb := buildWritePdu_divides hdiv refn
    by_cases hfit : 15 + 12 * items.length + (items.map fun it => 4 + it.data.length).sum ≤ 960
    · rw [if_pos hfit] at hb
      have hlen : ∀ it ∈ items, it.data.length ≤ 943 := fun it hit =>
        length_data_le (by rw [length_sections]; omega) hit
      have hiff : ∀ {i it}, items[i]? = some it → _ := fun {i it} hi =>
        WriteItem.count_exact_iff (hlen it (List.mem_of_getElem? hi))
      constructor
      · intro h
        refine ⟨hdiv, fun _ it hit => ?_⟩
        obtain ⟨i, hi⟩ := List.mem_iff_getElem?.mp hit
        obtain ⟨c, hc, he⟩ := h.exact _ hb i it hi
        rw [u16At_count hi, Option.some.injEq] at hc
        rw [← hc] at he
        exact (hiff hi).mp he
      · rintro ⟨-, h⟩
        refine ⟨by rw [hb]; nofun, fun frame hf i it hi => ?_⟩
        cases hb.symm.trans hf
        exact ⟨_, u16At_count hi refn _, (hiff hi).mpr (h hfit it (List.mem_of_getElem? hi))⟩
    · rw [if_neg hfit] at hb
      refine ⟨fun _ => ⟨hdiv, fun hle => absurd hle hfit⟩, fun _ => ⟨by rw [hb]; nofun, ?_⟩⟩
      intro frame hf
      cases hb.symm.trans hf
  · have hb : buildWritePdu items refn = .error .abort :=
      buildWritePdu_abort (by simpa using hdiv) refn
    exact ⟨fun h => absurd hb h.total, fun h => absurd h.1 hdiv⟩

end Counts

/-- **Three bytes are written as one word**: the frame declares two of them. -/
theorem writeEncodes_refuted : ¬ ∀ (items : List WriteItem) (refn : Int32),
    (∀ it ∈ items, it.Public) → WriteEncodes items refn := by
  intro h
  have hdiv : ∀ it ∈ [WriteItem.db 1 0 .word [1, 2, 3]], it.Divides := by
    intro it hit
    cases List.mem_singleton.mp hit
    exact fun _ => by decide
  have hpub : ∀ it ∈ [WriteItem.db 1 0 .word [1, 2, 3]], it.Public := by
    intro it hit
    cases List.mem_singleton.mp hit
    exact .db 1 0 .word [1, 2, 3]
  have hb := buildWritePdu_divides hdiv 1
  rw [if_pos (by decide)] at hb
  obtain ⟨c, hc, he⟩ := (h _ 1 hpub).exact _ hb 0 _ rfl
  rw [u16At_count rfl, Option.some.injEq] at hc
  rw [← hc] at he
  revert he
  decide

end MoonS7
