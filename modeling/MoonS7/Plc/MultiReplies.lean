import MoonS7.Plc.Lossless

/-!
# Replies of several items

`build_read_pdu` asks for any number of items and `parse_response` returns a list of payloads. The
reply to a read of `n` items holds `n` records behind the parameters, each with a return code, a
length of its own and, behind an odd payload that is not the last, a fill byte.

`parse_response` tests the first return code only and takes everything behind the first item's
header for one payload. Main result: `itemByItem_iff` -- it reads a reply item by item exactly if
the reply has one item, or its first item has failed.
-/

namespace MoonS7

/-! ## 1. The reply -/

/-- An item of a reply. -/
structure AckItem where
  code : UInt8
  payload : List UInt8

/-- The bytes of an item: return code, transport size, length in bits, payload. -/
def AckItem.record (it : AckItem) : List UInt8 :=
  let bitLen := 8 * it.payload.length
  [it.code, 0x04, UInt8.ofNat (bitLen / 256), UInt8.ofNat bitLen] ++ it.payload

/-- The bytes an item's header declares. -/
def AckItem.declared (it : AckItem) : Nat :=
  let bitLen := 8 * it.payload.length
  u16 (UInt8.ofNat (bitLen / 256)) (UInt8.ofNat bitLen) / 8

/-- The data section: an odd payload has a fill byte behind it if another item follows. -/
def ackItems (fill : UInt8) : List AckItem → List UInt8
  | [] => []
  | it :: its =>
    it.record ++ (if its ≠ [] ∧ it.payload.length % 2 = 1 then [fill] else []) ++ ackItems fill its

/-- The Ack-Data frame: twelve bytes of header, two of parameters, then the items. -/
def ackRead (refn : Nat) (fill : UInt8) (items : List AckItem) : Frame :=
  let data := ackItems fill items
  let total := 21 + data.length
  [0x03, 0x00, UInt8.ofNat (total / 256), UInt8.ofNat total] ++ cotpDt ++
    (pid :: 0x03 :: [0x00, 0x00, UInt8.ofNat (refn / 256), UInt8.ofNat refn, 0x00, 0x02,
      UInt8.ofNat (data.length / 256), UInt8.ofNat data.length, 0x00, 0x00,
      pr, UInt8.ofNat items.length] ++ data)

/-- The payloads that are returned show the bytes of the item `i`: they are others where the item has
    failed with another return code, or has another payload of this length. -/
def Presents (refn : Nat) (fill : UInt8) (items : List AckItem) (i : Nat) : Prop :=
  ∃ it it' ps ps', items[i]? = some it ∧ it'.code ≠ 0xFF ∧ it'.payload.length = it.payload.length ∧
    parseResponse (ackRead refn fill items) = .ok ps ∧
    parseResponse (ackRead refn fill (items.set i it')) = .ok ps' ∧ ps ≠ ps'

/-- **A reply read item by item**: the payloads of the items, each as long as its header declares,
    if all of them were read; and nothing of an item that was not, neither of its payload nor of its
    return code. -/
structure ItemByItem (refn : Nat) (fill : UInt8) (items : List AckItem) : Prop where
  payloads : (∀ it ∈ items, it.code = 0xFF) →
    parseResponse (ackRead refn fill items) = .ok (items.map AckItem.payload) ∧
      ∀ it ∈ items, it.payload.length = it.declared
  hidden : ∀ i it, items[i]? = some it → it.code ≠ 0xFF → ¬ Presents refn fill items i

/-! ## 2. What the parser makes of it -/

section Parse

variable {refn : Nat} {fill : UInt8} {it : AckItem} {its items : List AckItem}

theorem declared_eq (h : it.payload.length < 8192) : it.declared = it.payload.length := by
  unfold AckItem.declared
  simp only
  rw [u16_ofNat]
  omega

theorem length_ackRead (refn : Nat) (fill : UInt8) (items : List AckItem) :
    (ackRead refn fill items).length = 21 + (ackItems fill items).length := by
  unfold ackRead
  simp only [List.length_append, List.length_cons, List.length_nil, cotpDt]
  omega

theorem length_record (it : AckItem) : it.record.length = 4 + it.payload.length := by
  unfold AckItem.record
  rw [List.length_append]
  rfl

/-- No payload of a reply that fits a PDU is longer than its length field can say. -/
theorem length_payload_lt (h : (ackItems fill items).length ≤ 939) :
    ∀ it ∈ items, it.payload.length < 8192 := by
  induction items with
  | nil => simp
  | cons a as ih =>
    rw [ackItems, List.length_append, List.length_append, length_record] at h
    intro it hit
    rcases List.mem_cons.mp hit with rfl | hit
    · omega
    · exact ih (by omega) it hit

/-- Another item of the same length in the place of one. -/
theorem length_ackItems_set {i : Nat} {it' : AckItem} (h : items[i]? = some it)
    (hl : it'.payload.length = it.payload.length) :
    (ackItems fill (items.set i it')).length = (ackItems fill items).length := by
  induction items generalizing i with
  | nil => cases h
  | cons a as ih =>
    cases i with
    | zero =>
      cases h
      simp only [List.set_cons_zero, ackItems, List.length_append, length_record, hl]
    | succ i =>
      have hnil : as.set i it' ≠ [] ↔ as ≠ [] := not_congr (List.set_eq_nil_iff ..)
      simp only [List.set_cons_succ, ackItems, List.length_append, ih h, hnil]

/-- The return code of an item stands in the data section. -/
theorem ackItems_set_ne {i : Nat} {it' : AckItem} (h : items[i]? = some it) (hne : it'.code ≠ it.code) :
    ackItems fill (items.set i it') ≠ ackItems fill items := by
  induction items generalizing i with
  | nil => cases h
  | cons a as ih =>
    cases i with
    | zero =>
      cases h
      intro he
      rw [List.set_cons_zero, ackItems, ackItems] at he
      exact hne (List.cons.inj he).1
    | succ i =>
      have hnil : as.set i it' ≠ [] ↔ as ≠ [] := not_congr (List.set_eq_nil_iff ..)
      rw [List.set_cons_succ, ackItems, ackItems]
      simp only [hnil]
      exact fun he => ih h (List.append_cancel_left he)

/-- What stands behind the payload of the first item. -/
def afterFirst (fill : UInt8) (it : AckItem) (its : List AckItem) : List UInt8 :=
  (if its ≠ [] ∧ it.payload.length % 2 = 1 then [fill] else []) ++ ackItems fill its

theorem findS7_ackRead (h : (ackRead refn fill items).length ≤ 960) :
    findS7 (ackRead refn fill items) = some 7 := by
  refine findS7_frame (fun e => ?_) (by decide)
  have := congrArg UInt8.toNat e
  rw [length_ackRead] at h
  rw [UInt8.toNat_ofNat', show pid.toNat = 50 from rfl] at this
  omega

/-- **What `parse_response` makes of a reply**: an error if the first item has failed, else one
    payload with the first item's bytes and everything behind them. -/
theorem parseResponse_ackRead (h : (ackRead refn fill (it :: its)).length ≤ 960) :
    (it.code = 0xFF ∧ parseResponse (ackRead refn fill (it :: its)) =
      .ok [it.payload ++ afterFirst fill it its]) ∨
    (it.code ≠ 0xFF ∧ ∃ e, parseResponse (ackRead refn fill (it :: its)) = err e) := by
  have hf := findS7_ackRead h
  have hdata : ackItems fill (it :: its) = [it.code, 0x04, UInt8.ofNat (8 * it.payload.length / 256),
      UInt8.ofNat (8 * it.payload.length)] ++ (it.payload ++ afterFirst fill it its) := by
    rw [ackItems, afterFirst, AckItem.record]
    simp only [List.append_assoc]
  have hcode : (ackRead refn fill (it :: its))[7 + 14]? = some it.code := by
    unfold ackRead
    rw [hdata]
    rfl
  have hdrop : (ackRead refn fill (it :: its)).drop (7 + 18) = it.payload ++ afterFirst fill it its := by
    unfold ackRead
    rw [hdata]
    rfl
  by_cases hc : it.code = 0xFF
  · refine Or.inl ⟨hc, ?_⟩
    rw [← hdrop]
    refine parseResponse_ok_iff.mpr ⟨7, ⟨hf, ⟨0x03, rfl, by decide⟩, ?_, ?_⟩, rfl⟩
    · rw [length_ackRead, hdata, List.length_append]
      simp only [List.length_cons, List.length_nil]
      omega
    · rw [hcode, hc]
  · refine Or.inr ⟨hc, ?_⟩
    rcases parseResponse_cases (ackRead refn fill (it :: its)) with ⟨s7, hr, -⟩ | ⟨he, -⟩
    · cases hf.symm.trans hr.header
      exact absurd (Option.some.inj (hcode.symm.trans hr.code)) hc
    · exact he

/-- A failed item behind a first one that was read: its return code is in the payload. -/
theorem presents_behind {i : Nat} {bad : AckItem}
    (hlen : (ackRead refn fill (it :: its)).length ≤ 960) (hc : it.code = 0xFF)
    (h : its[i]? = some bad) :
    Presents refn fill (it :: its) (i + 1) := by
  -- the same item with another return code
  obtain ⟨bad', hc₁, hpay, hc₂⟩ : ∃ bad' : AckItem, bad'.code ≠ 0xFF ∧
      bad'.payload.length = bad.payload.length ∧ bad'.code ≠ bad.code := by
    by_cases h0 : bad.code = 0
    · exact ⟨⟨1, bad.payload⟩, (by decide : (1 : UInt8) ≠ 0xFF), rfl, h0 ▸ (by decide : (1 : UInt8) ≠ 0)⟩
    · exact ⟨⟨0, bad.payload⟩, (by decide : (0 : UInt8) ≠ 0xFF), rfl, Ne.symm h0⟩
  have hset : (ackItems fill ((it :: its).set (i + 1) bad')).length = (ackItems fill (it :: its)).length :=
    length_ackItems_set h hpay
  have hlen' : (ackRead refn fill (it :: its.set i bad')).length ≤ 960 := by
    rw [length_ackRead] at hlen ⊢
    rw [List.set_cons_succ] at hset
    omega
  have hp := (parseResponse_ackRead hlen).resolve_right fun h => h.1 hc
  have hp' := (parseResponse_ackRead hlen').resolve_right fun h => h.1 hc
  refine ⟨bad, bad', _, _, h, hc₁, hpay, hp.2, hp'.2, fun he => ?_⟩
  have hnil : its.set i bad' ≠ [] ↔ its ≠ [] := not_congr (List.set_eq_nil_iff ..)
  have he := List.append_cancel_left (List.cons.inj he).1
  unfold afterFirst at he
  simp only [hnil] at he
  exact ackItems_set_ne h hc₂ (List.append_cancel_left he).symm

/-- A reply with one item. -/
theorem itemByItem_one (hlen : (ackRead refn fill [it]).length ≤ 960) :
    ItemByItem refn fill [it] := by
  have hdata : (ackItems fill [it]).length ≤ 939 := by
    rw [length_ackRead] at hlen
    omega
  refine ⟨fun hall => ?_, fun i bad hi hbad hpres => ?_⟩
  · have hp := (parseResponse_ackRead hlen).resolve_right fun h => h.1 (hall it List.mem_cons_self)
    refine ⟨?_, fun i hi => (declared_eq (length_payload_lt hdata i hi)).symm⟩
    rw [hp.2, afterFirst, if_neg (fun h => h.1 rfl), ackItems, List.append_nil, List.append_nil]
    rfl
  · -- an item that has failed gives an error
    cases List.mem_singleton.mp (List.mem_of_getElem? hi)
    obtain ⟨_, _, _, _, _, _, _, hps, -⟩ := hpres
    rcases parseResponse_ackRead hlen with ⟨hc, -⟩ | ⟨-, e, hp⟩
    · exact hbad hc
    · rw [hp] at hps
      cases hps

/-- A reply whose first item has failed gives an error. -/
theorem itemByItem_of_failed (hlen : (ackRead refn fill (it :: its)).length ≤ 960)
    (hc : it.code ≠ 0xFF) : ItemByItem refn fill (it :: its) := by
  obtain ⟨-, e, hp⟩ := (parseResponse_ackRead hlen).resolve_left fun h => hc h.1
  refine ⟨fun hall => absurd (hall it List.mem_cons_self) hc, fun i _ _ _ hpres => ?_⟩
  obtain ⟨_, _, _, _, _, _, _, hps, -⟩ := hpres
  rw [hp] at hps
  cases hps

/-- Of several items, the first of which was read, one payload is made; what has failed is in it. -/
theorem not_itemByItem (hlen : (ackRead refn fill (it :: its)).length ≤ 960) (hits : its ≠ [])
    (hc : it.code = 0xFF) : ¬ ItemByItem refn fill (it :: its) := by
  intro hi
  by_cases hall : ∀ i ∈ it :: its, i.code = 0xFF
  · have h1 := (hi.payloads hall).1
    rw [((parseResponse_ackRead hlen).resolve_right fun h => h.1 hc).2] at h1
    have h2 := congrArg List.length (Except.ok.inj h1)
    rw [List.length_map, List.length_singleton, List.length_cons] at h2
    exact hits (List.length_eq_zero_iff.mp (by omega))
  · -- the item that failed is not the first one
    obtain ⟨bad, hmem, hbad⟩ : ∃ i ∈ it :: its, i.code ≠ 0xFF := by
      by_contra hno
      exact hall fun i hmem => by_contra fun hic => hno ⟨i, hmem, hic⟩
    have hrest : bad ∈ its := by
      rcases List.mem_cons.mp hmem with rfl | h
      · exact absurd hc hbad
      · exact h
    obtain ⟨i, hi'⟩ := List.getElem?_of_mem hrest
    exact hi.hidden (i + 1) bad hi' hbad (presents_behind hlen hc hi')

end Parse

/-! ## 3. One item, or a first one that failed -/

/-- **A reply is read item by item exactly if** it has one item, or its first item has failed. -/
theorem itemByItem_iff (refn : Nat) (fill : UInt8) (items : List AckItem) (hne : items ≠ [])
    (hlen : (ackRead refn fill items).length ≤ 960) :
    ItemByItem refn fill items ↔ items.length = 1 ∨ ∃ it, items.head? = some it ∧ it.code ≠ 0xFF := by
  cases items with
  | nil => exact absurd rfl hne
  | cons it its =>
    constructor
    · intro hi
      by_contra hn
      have hits : its ≠ [] := fun h => hn (Or.inl (by rw [h]; rfl))
      have hc : it.code = 0xFF := by_contra fun hc => hn (Or.inr ⟨it, rfl, hc⟩)
      exact not_itemByItem hlen hits hc hi
    · rintro (h1 | ⟨i, hi, hc⟩)
      · have hits : its = [] := List.length_eq_zero_iff.mp (by rw [List.length_cons] at h1; omega)
        subst hits
        exact itemByItem_one hlen
      · cases hi
        exact itemByItem_of_failed hlen hc

/-- The first of two items has failed. -/
theorem itemByItem_firstFailed : ItemByItem 1 0 [⟨0x0A, [0x41]⟩, ⟨0xFF, [0x42, 0x43]⟩] :=
  (itemByItem_iff 1 0 _ (List.cons_ne_nil _ _) (by decide)).mpr (Or.inr ⟨_, rfl, by decide⟩)

/-- Two items of two bytes come back as one of eight, with the header of the second in the middle,
    and they do so whether the second could be read or not. -/
theorem twoItems_refuted :
    parseResponse (ackRead 1 0 [⟨0xFF, [1, 2]⟩, ⟨0xFF, [3, 4]⟩]) = .ok [[1, 2, 0xFF, 4, 0, 16, 3, 4]] ∧
    parseResponse (ackRead 1 0 [⟨0xFF, [1, 2]⟩, ⟨0x0A, [3, 4]⟩]) = .ok [[1, 2, 0x0A, 4, 0, 16, 3, 4]] ∧
    ¬ ItemByItem 1 0 [⟨0xFF, [1, 2]⟩, ⟨0xFF, [3, 4]⟩] ∧
    ¬ ItemByItem 1 0 [⟨0xFF, [1, 2]⟩, ⟨0x0A, [3, 4]⟩] := by
  have h₁ : parseResponse (ackRead 1 0 [⟨0xFF, [1, 2]⟩, ⟨0xFF, [3, 4]⟩]) =
      .ok [[1, 2, 0xFF, 4, 0, 16, 3, 4]] := by decide
  have h₂ : parseResponse (ackRead 1 0 [⟨0xFF, [1, 2]⟩, ⟨0x0A, [3, 4]⟩]) =
      .ok [[1, 2, 0x0A, 4, 0, 16, 3, 4]] := by decide
  have h₃ : parseResponse (ackRead 1 0 [⟨0xFF, [1, 2]⟩, ⟨0x0A, [5, 6]⟩]) =
      .ok [[1, 2, 0x0A, 4, 0, 16, 5, 6]] := by decide
  refine ⟨h₁, h₂, fun h => ?_, fun h => ?_⟩
  · have hp := (h.payloads (by decide)).1
    rw [h₁] at hp
    revert hp
    decide
  · exact h.hidden 1 ⟨0x0A, [3, 4]⟩ rfl (by decide)
      ⟨_, ⟨0x0A, [5, 6]⟩, _, _, rfl, by decide, rfl, h₂, h₃, by decide⟩

end MoonS7
