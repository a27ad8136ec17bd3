import MoonS7.Protocol.Requests

/-!
# Reply frames (`protocol/s7comm.mbt`, 176-190 and 338-432)

What the client makes of a frame it has received: the search for the S7 header, and the three
checks of a reply -- of a read (`parseResponse`), of a write (`writeReply`, inlined in
`exec_write`) and of the setup job (`parseSetupResp`).

Main results: which frames each accepts, and with what result (`parseResponse_ok_iff`,
`writeReply_ok_iff`, `parseSetupResp_eq`).
-/

namespace MoonS7

/-! ## 1. The S7 header -/

/-- `data` has the protocol id at `i`, and behind it a message type that `ok` takes. -/
def isHeader (ok : UInt8 → Bool) (data : List UInt8) (i : Nat) : Bool :=
  match data[i]?, data[i + 1]? with
  | some a, some b => a == pid && ok b
  | _, _ => false

/-- The first place of a header. -/
def findHeader (ok : UInt8 → Bool) (data : List UInt8) : Option Nat :=
  (List.range data.length).find? (isHeader ok data)

/-- The message types of a job, an Ack-Data and a userdata frame, with the error flag (bit 7)
    masked. -/
def msgType (b : UInt8) : Bool :=
  let mt := toInt b &&& 0x7F
  mt == 0x01 || mt == 0x03 || mt == 0x07

/-- `find_s7`; its `-1` is `none`. -/
def findS7 (data : List UInt8) : Option Nat := findHeader msgType data

section Header

variable {ok : UInt8 → Bool} {data : List UInt8} {i : Nat}

theorem isHeader_iff : isHeader ok data i = true ↔
    data[i]? = some pid ∧ ∃ b, data[i + 1]? = some b ∧ ok b = true := by
  unfold isHeader
  cases data[i]? <;> cases data[i + 1]? <;> simp

theorem lt_of_isHeader (h : isHeader ok data i = true) : i + 1 < data.length := by
  obtain ⟨-, b, hb, -⟩ := isHeader_iff.mp h
  exact (List.getElem?_eq_some_iff.mp hb).1

theorem findHeader_eq_some_iff : findHeader ok data = some i ↔
    isHeader ok data i = true ∧ ∀ j, j < i → isHeader ok data j = false := by
  rw [findHeader, List.find?_range_eq_some]
  constructor
  · rintro ⟨h₁, -, h₂⟩
    exact ⟨h₁, fun j hj => by simpa using h₂ j hj⟩
  · rintro ⟨h₁, h₂⟩
    have := lt_of_isHeader h₁
    exact ⟨h₁, List.mem_range.mpr (by omega), fun j hj => by simpa using h₂ j hj⟩

/-- A frame with a header somewhere has a first one. -/
theorem findHeader_of_isHeader (h : isHeader ok data i = true) :
    ∃ j, findHeader ok data = some j ∧ j ≤ i := by
  have hi := lt_of_isHeader h
  cases hf : findHeader ok data with
  | none =>
    rw [findHeader, List.find?_range_eq_none] at hf
    have := hf i (by omega)
    rw [h] at this
    cases this
  | some j =>
    refine ⟨j, rfl, Nat.le_of_not_lt fun hij => ?_⟩
    have := (findHeader_eq_some_iff.mp hf).2 i hij
    rw [h] at this
    cases this

/-- **The header of a frame behind a TPKT and a COTP DT header** is the first one, unless the TPKT
    length looks like one: nothing behind the header matters. -/
theorem findHeader_tpkt {hi lo mt : UInt8} {rest : List UInt8} (h02 : ok 0x02 = false)
    (hlen : hi = pid → ok lo = false) (hmt : ok mt = true) :
    findHeader ok ([0x03, 0x00, hi, lo] ++ cotpDt ++ (pid :: mt :: rest)) = some 7 := by
  rw [findHeader_eq_some_iff]
  refine ⟨by simp [isHeader, cotpDt, hmt], fun j hj => ?_⟩
  have hj : j = 0 ∨ j = 1 ∨ j = 2 ∨ j = 3 ∨ j = 4 ∨ j = 5 ∨ j = 6 := by omega
  rcases hj with rfl | rfl | rfl | rfl | rfl | rfl | rfl
  · rfl
  · rfl
  · by_cases hhi : hi = pid
    · simp [isHeader, cotpDt, hlen hhi]
    · simp [isHeader, cotpDt, hhi]
  · simp [isHeader, cotpDt, h02]
  · rfl
  · rfl
  · rfl

/-- A TPKT length that has the protocol id and a message type is the first header. -/
theorem findHeader_length {lo : UInt8} {rest : List UInt8} (hlo : ok lo = true) :
    findHeader ok ([0x03, 0x00, pid, lo] ++ rest) = some 2 := by
  rw [findHeader_eq_some_iff]
  refine ⟨by simp [isHeader, hlo], fun j hj => ?_⟩
  have hj : j = 0 ∨ j = 1 := by omega
  rcases hj with rfl | rfl
  · rfl
  · rfl

theorem findHeader_frame {hi lo mt : UInt8} {rest : List UInt8} (h02 : ok 0x02 = false)
    (hhi : hi ≠ pid) (hmt : ok mt = true) :
    findHeader ok ([0x03, 0x00, hi, lo] ++ cotpDt ++ (pid :: mt :: rest)) = some 7 :=
  findHeader_tpkt h02 (fun h => absurd h hhi) hmt

theorem isHeader_drop (k : Nat) : isHeader ok (data.drop k) i = isHeader ok data (k + i) := by
  rw [isHeader, isHeader, List.getElem?_drop, List.getElem?_drop, Nat.add_assoc]

theorem isHeader_append {more : List UInt8} (h : i + 1 < data.length) :
    isHeader ok (data ++ more) i = isHeader ok data i := by
  rw [isHeader, isHeader, List.getElem?_append_left (by omega), List.getElem?_append_left h]

theorem isHeader_take (n : Nat) :
    isHeader ok (data.take n) i = (decide (i + 1 < n) && isHeader ok data i) := by
  unfold isHeader
  by_cases h : i + 1 < n
  · rw [List.getElem?_take_of_lt (by omega), List.getElem?_take_of_lt h, decide_eq_true h, Bool.true_and]
  · rw [List.getElem?_eq_none (show (data.take n).length ≤ i + 1 by rw [List.length_take]; omega),
      decide_eq_false h, Bool.false_and]
    cases (data.take n)[i]? <;> rfl

/-- A header that is found is found in the first bytes too, if they have it. -/
theorem findHeader_take (h : findHeader ok data = some i) (n : Nat) :
    findHeader ok (data.take n) = if i + 1 < n then some i else none := by
  obtain ⟨hi, hfirst⟩ := findHeader_eq_some_iff.mp h
  have hbefore : ∀ j, j < i → isHeader ok (data.take n) j = false := fun j hj => by
    rw [isHeader_take, hfirst j hj, Bool.and_false]
  split
  · rename_i hn
    exact findHeader_eq_some_iff.mpr ⟨by rw [isHeader_take, hi, decide_eq_true hn]; rfl, hbefore⟩
  · rename_i hn
    rw [findHeader, List.find?_range_eq_none]
    intro j hj
    rw [Bool.not_eq_true', isHeader_take]
    rw [List.length_take] at hj
    -- what is left of the data ends before the header, or with its first byte
    by_cases hji : j < i
    · rw [hfirst j hji, Bool.and_false]
    · rw [decide_eq_false (by omega), Bool.false_and]

/-- What comes in front of a header, or behind it, may be missing, or be something else. -/
theorem findHeader_piece (h : findHeader ok data = some i) {k : Nat} (hk : k ≤ i) (more : List UInt8) :
    findHeader ok (data.drop k ++ more) = some (i - k) := by
  obtain ⟨hi, hfirst⟩ := findHeader_eq_some_iff.mp h
  have hlen := lt_of_isHeader hi
  have hat : ∀ j, j ≤ i - k → isHeader ok (data.drop k ++ more) j = isHeader ok data (k + j) := fun j hj => by
    rw [isHeader_append (by rw [List.length_drop]; omega), isHeader_drop]
  refine findHeader_eq_some_iff.mpr ⟨?_, fun j hj => ?_⟩
  · rw [hat _ (Nat.le_refl _), Nat.add_sub_cancel' hk]
    exact hi
  · rw [hat j (by omega)]
    exact hfirst _ (by omega)

end Header

theorem msgType_iff {b : UInt8} : msgType b = true ↔
    b.toNat % 128 = 1 ∨ b.toNat % 128 = 3 ∨ b.toNat % 128 = 7 := by
  have hmask : bits (toInt b &&& 0x7F) = b.toNat % 128 := bits_toInt_mask (m := 7) (by decide) b
  have heq : ∀ {k : Int32}, (toInt b &&& 0x7F == k) = true ↔ b.toNat % 128 = bits k := by
    intro k
    rw [beq_iff_eq, ← hmask]
    exact ⟨fun h => by rw [h], bits_inj⟩
  rw [msgType]
  simp only [Bool.or_eq_true, heq, or_assoc]
  rfl

theorem findS7_frame {hi lo mt : UInt8} {rest : List UInt8} (hhi : hi ≠ pid) (hmt : msgType mt = true) :
    findS7 ([0x03, 0x00, hi, lo] ++ cotpDt ++ (pid :: mt :: rest)) = some 7 :=
  findHeader_frame (by decide) hhi hmt

/-- The header found is inside the frame, with its message type. -/
theorem lt_of_findS7 {data : List UInt8} {i : Nat} (h : findS7 data = some i) :
    i + 1 < data.length :=
  lt_of_isHeader (findHeader_eq_some_iff.mp h).1

/-! ## 2. The reply to a read -/

/-- The error flag, bit 7 of the message type. -/
def errorFlag (mt : UInt8) : Bool := toInt mt &&& 0x80 != 0

def parseResponse (data : List UInt8) : S7Result (List (List UInt8)) :=
  let n := data.length
  match findS7 data with
  | none => err (.invalidPdu "No S7 header")
  | some s7 =>
    if n < s7 + 2 then err (.invalidPdu "Too short")
    else do
      let mt ← byteAt data (s7 + 1)
      if errorFlag mt then do
        let e ← if s7 + 12 < n then do
            let hi ← byteAt data (s7 + 10)
            let lo ← byteAt data (s7 + 11)
            .ok (be16 hi lo)
          else .ok 0
        err (.plcError e "PLC error")
      else if n < s7 + 18 then err (.invalidPdu "Too short")
      else do
        let b ← byteAt data (s7 + 14)
        let rc := toInt b
        if rc ≠ 0xFF then err (.plcError rc "PLC read item error")
        else .ok [data.drop (s7 + 18)]

theorem toInt_inj {a b : UInt8} : toInt a = toInt b ↔ a = b := by
  refine ⟨fun h => ?_, fun h => by rw [h]⟩
  have ha := a.toNat_lt
  have hb := b.toNat_lt
  have h' := congrArg bits h
  rw [toInt, toInt, bits_ofNat, bits_ofNat] at h'
  exact UInt8.toNat.inj (by omega)

theorem toInt_eq_ff {b : UInt8} : toInt b = 0xFF ↔ b = 0xFF :=
  toInt_inj (b := 0xFF)

/-- A frame that `parse_response` takes: a header without the error flag, at least up to the
    payload's place, and the return code `0xFF`. -/
structure ReadReply (data : List UInt8) (s7 : Nat) : Prop where
  header : findS7 data = some s7
  noFlag : ∃ mt, data[s7 + 1]? = some mt ∧ errorFlag mt = false
  length : s7 + 18 ≤ data.length
  code : data[s7 + 14]? = some 0xFF

/-- **What a read makes of a frame**: the payload of a `ReadReply`, and an error -- never an
    abort -- for every other frame. -/
theorem parseResponse_cases (data : List UInt8) :
    (∃ s7, ReadReply data s7 ∧ parseResponse data = .ok [data.drop (s7 + 18)]) ∨
    (∃ e, parseResponse data = err e) ∧ ∀ s7, ¬ ReadReply data s7 := by
  unfold parseResponse
  cases hf : findS7 data with
  | none => exact Or.inr ⟨⟨_, rfl⟩, fun s7 h => by cases hf.symm.trans h.header⟩
  | some s7 =>
    have hs : ∀ {s}, ReadReply data s → s = s7 := fun h => by
      cases hf.symm.trans h.header
      rfl
    have hlt := lt_of_findS7 hf
    obtain ⟨mt, hmt, hmt'⟩ := byteAt_of_lt hlt
    simp only [if_neg (show ¬ data.length < s7 + 2 by omega), hmt', ok_bind]
    cases hflag : errorFlag mt with
    | true =>
      refine Or.inr ⟨?_, fun s h => ?_⟩
      · by_cases h12 : s7 + 12 < data.length
        · obtain ⟨a, -, ha⟩ := byteAt_of_lt (show s7 + 10 < data.length by omega)
          obtain ⟨b, -, hb⟩ := byteAt_of_lt (show s7 + 11 < data.length by omega)
          simp only [if_pos h12, ha, hb, ok_bind, if_true]
          exact ⟨_, rfl⟩
        · simp only [if_neg h12, if_true]
          exact ⟨_, rfl⟩
      · obtain ⟨mt', h₁, h₂⟩ := h.noFlag
        rw [hs h, hmt] at h₁
        cases h₁
        rw [hflag] at h₂
        cases h₂
    | false =>
      simp only [Bool.false_eq_true, if_false]
      by_cases h18 : data.length < s7 + 18
      · simp only [if_pos h18]
        refine Or.inr ⟨⟨_, rfl⟩, fun s h => ?_⟩
        have := h.length
        rw [hs h] at this
        omega
      · obtain ⟨b, hb, hb'⟩ := byteAt_of_lt (show s7 + 14 < data.length by omega)
        simp only [if_neg h18, hb', ok_bind]
        by_cases hrc : b = 0xFF
        · subst hrc
          exact Or.inl ⟨s7, ⟨hf, ⟨mt, hmt, hflag⟩, by omega, hb⟩, rfl⟩
        · have hrc' : toInt b ≠ 0xFF := fun h => hrc (toInt_eq_ff.mp h)
          simp only [if_pos hrc']
          refine Or.inr ⟨⟨_, rfl⟩, fun s h => hrc ?_⟩
          have := h.code
          rw [hs h, hb] at this
          cases this
          rfl

theorem parseResponse_ok_iff {data : List UInt8} {r : List (List UInt8)} :
    parseResponse data = .ok r ↔ ∃ s7, ReadReply data s7 ∧ r = [data.drop (s7 + 18)] := by
  rcases parseResponse_cases data with ⟨s7, h, hp⟩ | ⟨⟨e, hp⟩, h⟩
  · rw [hp, Except.ok.injEq]
    constructor
    · rintro rfl
      exact ⟨s7, h, rfl⟩
    · rintro ⟨s, hs, rfl⟩
      cases h.header.symm.trans hs.header
      rfl
  · rw [hp]
    constructor
    · intro hr
      cases hr
    · rintro ⟨s, hs, -⟩
      exact absurd hs (h s)

/-! ## 3. The reply to a write -/

/-- The check `exec_write` makes of the reply: the return code, and nothing else. -/
def writeReply (resp : List UInt8) : S7Result Unit :=
  match findS7 resp with
  | none => err (.invalidPdu "Bad write response")
  | some s7 =>
    if resp.length ≤ s7 + 14 then err (.invalidPdu "Bad write response")
    else do
      let b ← byteAt resp (s7 + 14)
      let rc := toInt b
      if rc ≠ 0xFF then err (.plcError rc "PLC write item error") else .ok ()

/-- The byte fourteen places behind the header is `0xFF`. -/
def WriteReply (resp : List UInt8) : Prop :=
  ∃ s7, findS7 resp = some s7 ∧ resp[s7 + 14]? = some 0xFF

/-- **What a write makes of a frame**: success for a `WriteReply`, and for every other an error
    with the return code, or without one if the frame has none. -/
theorem writeReply_cases (resp : List UInt8) :
    (WriteReply resp ∧ writeReply resp = .ok ()) ∨
    (¬ WriteReply resp ∧ ∃ e, writeReply resp = err e ∧
      (e = .invalidPdu "Bad write response" ∨ ∃ rc, e = .plcError rc "PLC write item error")) := by
  unfold writeReply
  cases hf : findS7 resp with
  | none => exact Or.inr ⟨fun ⟨_, h, _⟩ => (by cases hf.symm.trans h), _, rfl, Or.inl rfl⟩
  | some s7 =>
    by_cases hl : resp.length ≤ s7 + 14
    · simp only [if_pos hl]
      refine Or.inr ⟨fun ⟨s, h₁, h₂⟩ => ?_, _, rfl, Or.inl rfl⟩
      cases hf.symm.trans h₁
      rw [List.getElem?_eq_none hl] at h₂
      cases h₂
    · obtain ⟨b, hb, hb'⟩ := byteAt_of_lt (Nat.lt_of_not_le hl)
      simp only [if_neg hl, hb', ok_bind]
      by_cases hrc : b = 0xFF
      · subst hrc
        exact Or.inl ⟨⟨s7, hf, hb⟩, rfl⟩
      · have hrc' : toInt b ≠ 0xFF := fun h => hrc (toInt_eq_ff.mp h)
        simp only [if_pos hrc']
        refine Or.inr ⟨fun ⟨s, h₁, h₂⟩ => hrc ?_, _, rfl, Or.inr ⟨_, rfl⟩⟩
        cases hf.symm.trans h₁
        exact Option.some.inj (hb.symm.trans h₂)

theorem writeReply_ok_iff {resp : List UInt8} : writeReply resp = .ok () ↔ WriteReply resp := by
  rcases writeReply_cases resp with ⟨h, he⟩ | ⟨h, e, he, -⟩
  · exact ⟨fun _ => h, fun _ => he⟩
  · rw [he]
    exact ⟨nofun, fun h' => absurd h' h⟩

/-- The check of a write reply never says that a request was too big. -/
theorem writeReply_ne_tooBig (resp : List UInt8) :
    writeReply resp ≠ err (.invalidPdu "PDU too big") := by
  rcases writeReply_cases resp with ⟨-, he⟩ | ⟨-, e, he, rfl | ⟨rc, rfl⟩⟩
  · rw [he]
    nofun
  · rw [he]
    decide
  · rw [he]
    nofun

theorem writeReply_total (resp : List UInt8) : writeReply resp ≠ .error .abort := by
  rcases writeReply_cases resp with ⟨-, he⟩ | ⟨-, e, he, -⟩
  · rw [he]
    nofun
  · rw [he]
    nofun

/-! ## 4. The replies to the connection request and to the setup job -/

def parseSetupResp (data : List UInt8) : S7Result Int32 :=
  if data.length < 22 then err (.invalidPdu "Too short")
  else match findS7 data with
    | none => err (.invalidPdu "No S7 header")
    | some _ =>
      if data.length ≥ 28 then do
        let hi ← byteAt data 25
        let lo ← byteAt data 26
        .ok (be16 hi lo)
      else .ok 480

/-- A frame with a header gets its size from two fixed bytes, or `480` if it is short. -/
theorem parseSetupResp_eq {data : List UInt8} {s7 : Nat} (h : findS7 data = some s7)
    (h22 : 22 ≤ data.length) :
    (data.length < 28 ∧ parseSetupResp data = .ok 480) ∨
    ∃ a b, 28 ≤ data.length ∧ data[25]? = some a ∧ data[26]? = some b ∧
      parseSetupResp data = .ok (be16 a b) := by
  unfold parseSetupResp
  simp only [if_neg (show ¬ data.length < 22 by omega), h]
  by_cases h28 : data.length ≥ 28
  · obtain ⟨a, ha, ha'⟩ := byteAt_of_lt (show 25 < data.length by omega)
    obtain ⟨b, hb, hb'⟩ := byteAt_of_lt (show 26 < data.length by omega)
    simp only [if_pos h28, ha', hb', ok_bind]
    exact Or.inr ⟨a, b, h28, ha, hb, rfl⟩
  · simp only [if_neg h28]
    exact Or.inl ⟨by omega, trivial⟩

/-- A frame of fewer than 22 bytes is refused. -/
theorem parseSetupResp_short {data : List UInt8} (h : data.length < 22) :
    parseSetupResp data = err (.invalidPdu "Too short") := by
  unfold parseSetupResp
  rw [if_pos h]

def parseCotpCc (data : List UInt8) : S7Result Int32 :=
  if data.length < 7 then err (.invalidPdu "Too short")
  else do
    let b0 ← byteAt data 0
    if b0 ≠ 0x03 then err (.invalidPdu "Bad TPKT")
    else do
      let b4 ← byteAt data 4
      let b5 ← byteAt data 5
      if b4 ≠ 0x11 ∨ b5 ≠ 0xD0 then err (.invalidPdu "Not CC") else .ok 1024

end MoonS7
