import MoonS7.Plc.Exchange

/-!
# Where a data-block access lands

The request frame has 16 bits for the DB number and 24 for the bit address. The client tests
neither: it sends the lowest bits of what the caller gave it.

Main results: `ag_lands` says for every 32-bit DB number and offset where the bytes of `ag_read`
and `ag_write` are, which is where the caller said if both fit (`dbField_of_fits`,
`landing_of_fits`); `ag_named_refuted` is a write to DB 65537 that changes DB 1.
-/

namespace MoonS7

open Interaction Port Ranges

/-- The DB number in the frame. -/
def dbField (db : Int32) : Nat := (db.toInt % 65536).toNat

/-- The byte offset in the frame of the chunk at `off`. -/
def landing (start : Int32) (off : Nat) : Nat := ((start.toInt + off) % 2 ^ 21).toNat

theorem dbField_of_fits {db : Int32} (h₀ : 0 ≤ db.toInt) (h₁ : db.toInt < 65536) :
    (dbField db : Int) = db.toInt := by
  rw [dbField]
  omega

theorem landing_of_fits {start : Int32} {off : Nat} (h₀ : 0 ≤ start.toInt)
    (h : start.toInt + off < 2 ^ 21) : (landing start off : Int) = start.toInt + off := by
  rw [landing]
  omega

section Field

variable (db start : Int32)

theorem region_db : (Area.db db).region = .db (dbField db) := by
  show Region.db (bits db % 65536) = _
  rw [bits_mod (by decide)]
  rfl

theorem bits_landing (off : Nat) : bits (start + Int32.ofNat off) % 2 ^ 21 = landing start off := by
  have h := bits_toInt start
  rw [bits_add, bits_ofNat, landing]
  omega

end Field

/-- A byte that a piecewise write changes lies in one of the pieces. -/
theorem writePieces_changed {area : Area} {start : Int32} {data : List UInt8} {m : Mem}
    {l : List (Nat × Nat)} {r : Region} {o : Nat}
    (h : writePieces area start data m l r o ≠ m r o) :
    r = area.region ∧ ∃ p ∈ l, landing start p.1 ≤ o ∧ o < landing start p.1 + p.2 := by
  induction l generalizing m with
  | nil => exact absurd rfl h
  | cons p l ih =>
    rw [writePieces, List.foldl_cons, bits_landing] at h
    by_cases hm : m.store area.region (landing start p.1) ((data.drop p.1).take p.2) r o = m r o
    · obtain ⟨hr, q, hq, hb⟩ := ih (m := m.store area.region (landing start p.1)
        ((data.drop p.1).take p.2)) (by rw [hm]; exact h)
      exact ⟨hr, q, List.mem_cons_of_mem _ hq, hb⟩
    · have hr : r = area.region := by
        by_contra hr
        exact hm (congrFun (Mem.store_other _ hr _ _) o)
      refine ⟨hr, p, List.mem_cons_self, ?_⟩
      subst hr
      by_contra ho
      refine hm ?_
      rw [Mem.store_same]
      refine splice_outside _ _ _ _ ?_
      have : ((data.drop p.1).take p.2).length ≤ p.2 := List.length_take_le _ _
      omega

/-- The number and the range fit their fields in the frame. -/
structure Fits (db start : Int32) (n : Nat) : Prop where
  db₀ : 0 ≤ db.toInt
  db₁ : db.toInt < 65536
  start₀ : 0 ≤ start.toInt
  stop : start.toInt + n ≤ 2 ^ 21

theorem Fits.names {db start : Int32} {n : Nat} (h : Fits db start n) :
    Names (.db db) (.db (dbField db)) := by
  have e : dbField db = db.toInt.toNat := by
    have := h.db₀
    have := h.db₁
    rw [dbField]
    omega
  rw [e]
  exact .db h.db₀ h.db₁

/-- From `s` to `s'` the pieces `l` of a write of `data` are stored in the DB and at the offsets that
    the fields of their frames give: where the caller said, if the range fits. -/
structure WriteLands (db start : Int32) (data : List UInt8) (l : List (Nat × Nat)) (s s' : PlcLink) :
    Prop where
  frames : s'.served.map asked =
    s.served.map asked ++ l.map fun p => [(.db (dbField db), landing start p.1, p.2)]
  bytes : s'.mem = l.foldl (fun m p =>
    m.store (.db (dbField db)) (landing start p.1) ((data.drop p.1).take p.2)) s.mem
  changed : ∀ r o, s'.mem r o ≠ s.mem r o →
    r = .db (dbField db) ∧ ∃ p ∈ l, landing start p.1 ≤ o ∧ o < landing start p.1 + p.2
  named : Fits db start data.length → (∃ k : Nat, (k : Int) = db.toInt ∧
      s'.mem = s.mem.store (.db k) start.toInt.toNat data) ∧
    ∀ r o, s'.mem r o ≠ s.mem r o → (∃ k : Nat, (k : Int) = db.toInt ∧ r = .db k) ∧
      start.toInt ≤ o ∧ (o : Int) < start.toInt + data.length

/-- From `s` to `s'` a read of `n` bytes gets the pieces `l` from the DB and the offsets that the
    fields of their frames give: where the caller said, if the range fits. -/
structure ReadLands (db start : Int32) (n : Nat) (l : List (Nat × Nat)) (s s' : PlcLink)
    (bs : List UInt8) : Prop where
  frames : s'.served.map asked =
    s.served.map asked ++ l.map fun p => [(.db (dbField db), landing start p.1, p.2)]
  bytes : bs = (l.map fun p => window (s.mem (.db (dbField db))) (landing start p.1) p.2).flatten
  named : Fits db start n → ∃ k : Nat, (k : Int) = db.toInt ∧
    bs = window (s.mem (.db k)) start.toInt.toNat n

section Lands

variable {cl : S7Client} (hc : cl.connected = true) (h960 : cl.pduSize.toInt ≤ 960)
  (db start : Int32) {s : PlcLink} (hs : s.replies = [])

include hc h960 hs

theorem agWrite_lands (data : List UInt8) :
    ∃ s', run plc (cl.agWrite db start data).run s = (.ok (), s') ∧
      WriteLands db start data (cuts (maxChunk cl.pduSize 35) 0 data.length) s s' := by
  have ht := tiles_cuts (maxChunk cl.pduSize 35) 0 data.length
  refine ⟨_, by rw [(ByteWrite.ag db).eq, run_chunkedWrite hc h960 _ start data hs], ?_, ?_, ?_,
    fun hf => ⟨⟨dbField db, dbField_of_fits hf.db₀ hf.db₁, ?_⟩, ?_⟩⟩
  · rw [List.map_append, List.map_map]
    congr 1
    refine List.map_congr_left fun p hp => ?_
    have hb := ht.bounds hp
    have hm := chunk_le h960 (by decide) hp
    have hlen : ((data.drop p.1).take p.2).length = p.2 := by
      rw [List.length_take, List.length_drop]
      omega
    show asked _ = _
    rw [asked_writeFrame _ _ _ (by omega), hlen, region_db, bits_landing]
  · simp only [writePieces, region_db, bits_landing]
  · intro r o h
    rw [← region_db]
    exact writePieces_changed h
  · have hall := writePieces_eq hf.names hf.start₀ ht (by omega) hf.stop s.mem
    rw [Nat.zero_add, List.take_length, List.take_zero, Mem.store_nil] at hall
    exact hall
  · intro r o h
    obtain ⟨rfl, p, hp, h₁, h₂⟩ := writePieces_changed h
    have hb := ht.bounds hp
    have := hf.stop
    have hl : (landing start p.1 : Int) = start.toInt + p.1 :=
      landing_of_fits hf.start₀ (by omega)
    exact ⟨⟨dbField db, dbField_of_fits hf.db₀ hf.db₁, region_db db⟩, by omega, by omega⟩

theorem agRead_lands {size : Int32} (h₁ : 1 ≤ size.toInt) :
    ∃ bs s', run plc (cl.agRead db start size).run s = (.ok bs, s') ∧
      ReadLands db start size.toInt.toNat
        (cuts (maxChunk cl.pduSize 23) 0 size.toInt.toNat) s s' bs := by
  have ht := tiles_cuts (maxChunk cl.pduSize 23) 0 size.toInt.toNat
  refine ⟨_, _, by rw [(ByteRead.ag db).eq, run_chunkedRead hc h960 _ start size hs,
    if_neg (by omega)], ?_, ?_, ?_⟩
  · rw [List.map_append, List.map_map]
    congr 1
    refine List.map_congr_left fun p hp => ?_
    have hm := chunk_le h960 (by decide) hp
    show asked _ = _
    rw [asked_readFrame, region_db, bits_landing, bits_ofNat]
    congr 3
    omega
  · simp only [readPieces, region_db, bits_landing]
  · intro hf
    exact ⟨dbField db, dbField_of_fits hf.db₀ hf.db₁,
      readPieces_eq hf.names hf.start₀ ht hf.stop s.mem⟩

end Lands

/-- **Where a data-block access lands.** No DB number and no offset is refused. The chunk at
    `off` goes to, and comes from, the DB of the number's lowest 16 bits, at the lowest 21 bits of
    `start + off`. -/
theorem ag_lands {cl : S7Client} (hc : cl.connected = true) (h960 : cl.pduSize.toInt ≤ 960)
    (db start : Int32) {s : PlcLink} (hs : s.replies = []) :
    (∀ data : List UInt8, ∃ s', run plc (cl.agWrite db start data).run s = (.ok (), s') ∧
      WriteLands db start data (cuts (maxChunk cl.pduSize 35) 0 data.length) s s') ∧
    (∀ size : Int32, 1 ≤ size.toInt → ∃ bs s',
      run plc (cl.agRead db start size).run s = (.ok bs, s') ∧
      ReadLands db start size.toInt.toNat
        (cuts (maxChunk cl.pduSize 23) 0 size.toInt.toNat) s s' bs) :=
  ⟨fun data => agWrite_lands hc h960 db start hs data,
    fun _ h₁ => agRead_lands hc h960 db start hs h₁⟩

/-- Three bytes across the end of the 24-bit address, in a DB with a negative number. -/
theorem ag_lands_wrapped :
    (∀ data : List UInt8, ∃ s',
      run plc (S7Client.agWrite { S7Client.new with connected := true } (-1) 2097151 data).run
        ⟨fun _ _ => 0, [], []⟩ = (.ok (), s') ∧
      WriteLands (-1) 2097151 data (cuts (maxChunk 480 35) 0 data.length)
        ⟨fun _ _ => 0, [], []⟩ s') ∧
    (∀ size : Int32, 1 ≤ size.toInt → ∃ bs s',
      run plc (S7Client.agRead { S7Client.new with connected := true } (-1) 2097151 size).run
        ⟨fun _ _ => 0, [], []⟩ = (.ok bs, s') ∧
      ReadLands (-1) 2097151 size.toInt.toNat (cuts (maxChunk 480 23) 0 size.toInt.toNat)
        ⟨fun _ _ => 0, [], []⟩ s' bs) :=
  ag_lands rfl (by decide) (-1) 2097151 rfl

/-- **Not where the caller said**: a write to DB 65537 succeeds and changes DB 1. -/
theorem ag_named_refuted :
    ¬ ∀ (cl : S7Client) (db start : Int32) (data : List UInt8) (s s' : PlcLink),
      cl.connected = true → 36 ≤ cl.pduSize.toInt → cl.pduSize.toInt ≤ 960 → s.replies = [] →
      run plc (cl.agWrite db start data).run s = (.ok (), s') →
      ∀ r o, s'.mem r o ≠ s.mem r o → (∃ n : Nat, (n : Int) = db.toInt ∧ r = .db n) ∧
        start.toInt ≤ o ∧ (o : Int) < start.toInt + data.length := by
  intro h
  have hrun := run_chunkedWrite
    (show S7Client.connected { S7Client.new with connected := true } = true from rfl) (by decide)
    (.db 65537) 0 [1] (s := ⟨fun _ _ => 0, [], []⟩) rfl
  rw [← (ByteWrite.ag 65537).eq, cuts_single 0 (by decide) (by decide)] at hrun
  have hnamed := h { S7Client.new with connected := true } 65537 0 [1] _ _ rfl (by decide) (by decide)
    rfl hrun (.db 1) 0 (by decide)
  obtain ⟨⟨n, hn, hr⟩, -⟩ := hnamed
  cases hr
  revert hn
  decide

end MoonS7
