import MoonS7.Lib.Ranges
import MoonS7.Protocol.Field
import MoonS7.Transport.Tcp

/-!
# The client (`client/client.mbt`)

The client's operations as programs over two calls, `send` (the source's `cl.tcp.send_raw`) and
`receive` (its `cl.tcp.receive`); `transport` says what the calls do on a socket. Only `connect`
works on the socket itself.

Main results: `chunkedRead_eq` and `chunkedWrite_eq`, the two loops as sessions over the pieces of
the range. Every other module reads the loops through them.
-/

namespace MoonS7

open Interaction Port Ranges

/-- A program of the client. Its own failures are errors or an abort, those of the calls errors. -/
abbrev Client (α : Type) : Type := Talk Frame Frame S7Error Stop α

structure S7Client where
  tcp : TcpConnection
  connected : Bool
  pduRef : Int32
  pduSize : Int32

def S7Client.newWithConfig (c : TcpConfig) : S7Client where
  tcp := TcpConnection.new c
  connected := false
  pduRef := 1
  pduSize := 480

def S7Client.new : S7Client := S7Client.newWithConfig {}

/-! ## 1. Connecting -/

def S7Client.connect (self : S7Client) : Task (S7Result S7Client) := do
  if self.connected then return err .alreadyConnected
  else match ← self.tcp.connect with
    | .error e => return .error e
    | .ok tc =>
      return .ok { tcp := tc, connected := true, pduRef := tc.pduRef + 1, pduSize := tc.pduLength }

def S7Client.disconnect (self : S7Client) : Task Unit :=
  if self.connected then self.tcp.disconnect else pure ()

/-- A client program run on the client's connection. -/
def S7Client.onSocket {α : Type} (cl : S7Client) (p : Client α) : Task (S7Result α) :=
  interp (transport cl.tcp cl.pduSize) p.run

/-! ## 2. The loops -/

def maxChunk (pdu : Int32) (overhead : Nat) : ℕ+ :=
  if h : (overhead : Int) < pdu.toInt then Nat.toPNat (pdu.toInt.toNat - overhead) (by omega)
  else 240

theorem maxChunk_of_lt {pdu : Int32} {overhead : Nat} (h : (overhead : Int) < pdu.toInt) :
    (maxChunk pdu overhead : Nat) = pdu.toInt.toNat - overhead := by
  rw [maxChunk, dif_pos h]
  rfl

/-- A PDU size that leaves no room for data gets chunks of 240 bytes. -/
theorem maxChunk_of_le {pdu : Int32} {overhead : Nat} (h : pdu.toInt ≤ overhead) :
    (maxChunk pdu overhead : Nat) = 240 := by
  rw [maxChunk, dif_neg (by omega)]
  rfl

/-- No chunk is longer than what the largest PDU leaves room for. -/
theorem maxChunk_le {pdu : Int32} {overhead : Nat} (h : pdu.toInt ≤ 960) (ho : overhead ≤ 720) :
    (maxChunk pdu overhead : Nat) ≤ 960 - overhead := by
  by_cases hp : (overhead : Int) < pdu.toInt
  · rw [maxChunk_of_lt hp]
    omega
  · rw [maxChunk_of_le (by omega)]
    omega

theorem chunk_le {pdu : Int32} {overhead n : Nat} (h : pdu.toInt ≤ 960) (ho : overhead ≤ 720)
    {p : Nat × Nat} (hp : p ∈ cuts (maxChunk pdu overhead) 0 n) : p.2 ≤ 960 - overhead :=
  Nat.le_trans (cuts_le _ _ _ p hp) (maxChunk_le h ho)

/-- One turn of the loop of `chunked_read`: the bytes that answer the request for `cs` bytes at
    `off`. -/
def readChunk (cl : S7Client) (area : Area) (start : Int32) (off cs : Nat) :
    Client (List UInt8) := do
  let item := ReadItem.new area (start + Int32.ofNat off) (.byteArray (Int32.ofNat cs))
  let req ← ofResult (buildReadPdu [item] cl.pduRef)
  send .err req
  let resp ← receive .err
  let results ← ofResult (parseResponse resp)
  return results.headD []

/-- The loop of `chunked_read`, for chunks of at most `m` bytes. -/
def readLoop (cl : S7Client) (area : Area) (start : Int32) (m : ℕ+) (remaining off : Nat)
    (result : List UInt8) : Client (List UInt8) :=
  if _h : remaining = 0 then return result
  else do
    let b ← readChunk cl area start off (min (m : Nat) remaining)
    readLoop cl area start m (remaining - min (m : Nat) remaining) (off + min (m : Nat) remaining)
      (result ++ b)
termination_by remaining
decreasing_by
  have := m.pos
  omega

/-- `chunked_read`; a negative size leaves nothing to read. -/
def chunkedRead (cl : S7Client) (area : Area) (start size : Int32) : Client (List UInt8) := do
  if cl.connected = false then ofResult (err .notConnected)
  else
    let result ← readLoop cl area start (maxChunk cl.pduSize 23) size.toInt.toNat 0 []
    if result.length = 0 then ofResult (err (.itemNotFound "No data")) else return result

def execWrite (cl : S7Client) (items : List WriteItem) : Client Unit := do
  let req ← ofResult (buildWritePdu items cl.pduRef)
  send .err req
  let resp ← receive .err
  ofResult (writeReply resp)

/-- The loop of `chunked_write`, for chunks of at most `m` bytes. -/
def writeLoop (cl : S7Client) (area : Area) (start : Int32) (data : List UInt8) (m : ℕ+)
    (off : Nat) : Client Unit :=
  if _h : off < data.length then do
    let cs := min (m : Nat) (data.length - off)
    let chunk := (data.drop off).take cs
    execWrite cl [WriteItem.new area (start + Int32.ofNat off) (.byteArray (Int32.ofNat cs)) chunk]
    writeLoop cl area start data m (off + min (m : Nat) (data.length - off))
  else return ()
termination_by data.length - off
decreasing_by
  have := m.pos
  omega

def chunkedWrite (cl : S7Client) (area : Area) (start : Int32) (data : List UInt8) : Client Unit := do
  if cl.connected = false then ofResult (err .notConnected)
  else writeLoop cl area start data (maxChunk cl.pduSize 35) 0

/-! ## 3. The loops as sessions -/

/-- The payload of a reply to a read. -/
def readCheck (resp : List UInt8) : S7Result (List UInt8) :=
  (parseResponse resp).map (·.headD [])

/-- The request for a piece of a range that begins at `start`. -/
def readReq (cl : S7Client) (area : Area) (start : Int32) (p : Nat × Nat) : S7Result Frame :=
  .ok (readFrame area (start + Int32.ofNat p.1) (Int32.ofNat p.2) cl.pduRef)

/-- The request to write a piece of `data`, refused if the piece is too long for any PDU. -/
def writeReq (cl : S7Client) (area : Area) (start : Int32) (data : List UInt8) (p : Nat × Nat) :
    S7Result Frame :=
  if p.2 ≤ 929 then
    .ok (writeFrame area (start + Int32.ofNat p.1) ((data.drop p.1).take p.2) cl.pduRef)
  else err (.invalidPdu "PDU too big")

/-- The requests of `chunked_read`. -/
def readReqs (cl : S7Client) (area : Area) (start size : Int32) : List (S7Result Frame) :=
  (cuts (maxChunk cl.pduSize 23) 0 size.toInt.toNat).map (readReq cl area start)

/-- The requests of `chunked_write`. -/
def writeReqs (cl : S7Client) (area : Area) (start : Int32) (data : List UInt8) :
    List (S7Result Frame) :=
  (cuts (maxChunk cl.pduSize 35) 0 data.length).map (writeReq cl area start data)

section Loops

variable (cl : S7Client) (area : Area) (start : Int32)

theorem readChunk_eq (off cs : Nat) :
    readChunk cl area start off cs = transact .err readCheck (readReq cl area start (off, cs)) := by
  unfold readChunk
  simp only [buildReadPdu_bytes, ofResult_ok_bind]
  rw [readReq, transact_ok, send_receive_bind]
  congr 1
  funext resp
  rw [readCheck]
  cases parseResponse resp <;> rfl

theorem execWrite_eq (items : List WriteItem) :
    execWrite cl items = transact .err writeReply (buildWritePdu items cl.pduRef) := by
  unfold execWrite transact
  congr 1
  funext req
  exact send_receive_bind _ _ _

/-- A write of items that succeeds has taken one answer, which has passed the check. -/
theorem execWrite_follows_ok {cl : S7Client} {items : List WriteItem}
    {tr : List (Event Frame Frame S7Error)} (hf : Follows (execWrite cl items).run tr (.ok ())) :
    ∃ a, answers tr = [a] ∧ writeReply a = .ok () := by
  rw [execWrite_eq] at hf
  cases hb : buildWritePdu items cl.pduRef with
  | error d =>
    rw [hb, transact_error] at hf
    obtain ⟨hx, -⟩ := follows_ret_iff.mp hf
    cases hx
  | ok q =>
    rw [hb] at hf
    rcases follows_transact_iff.mp hf with ⟨e, -, hx⟩ | ⟨e, -, hx⟩ | ⟨a, rfl, hx⟩
    · cases hx
    · cases hx
    · exact ⟨a, rfl, hx.symm⟩

theorem readLoop_eq (m : ℕ+) (remaining off : Nat) (result : List UInt8) :
    readLoop cl area start m remaining off result =
      session .err readCheck ((cuts m off remaining).map (readReq cl area start)) >>=
        fun bs => pure (result ++ bs.flatten) := by
  induction off, remaining using cuts_induction (m := m) generalizing result with
  | zero off =>
    rw [readLoop, dif_pos rfl, cuts_zero, List.map_nil, session_nil, ofResult_ok_bind,
      List.flatten_nil, List.append_nil]
  | step off remaining hr ih =>
    rw [readLoop, dif_neg (Nat.ne_of_gt hr), readChunk_eq, cuts_pos m off hr, List.map_cons,
      session_cons, bind_assoc]
    congr 1
    funext b
    rw [ih, bind_assoc]
    congr 1
    funext bs
    rw [ofResult_ok_bind, List.flatten_cons, List.append_assoc]

theorem writeLoop_eq (data : List UInt8) (m : ℕ+) (n off : Nat) (h : off + n = data.length) :
    writeLoop cl area start data m off =
      session .err writeReply ((cuts m off n).map (writeReq cl area start data)) >>=
        fun _ => pure () := by
  induction off, n using cuts_induction (m := m) with
  | zero off =>
    rw [writeLoop, dif_neg (by omega), cuts_zero, List.map_nil, session_nil, ofResult_ok_bind]
  | step off n hn ih =>
    have hm := m.pos
    have hlen : data.length - off = n := by omega
    have hc : ((data.drop off).take (min (m : Nat) n)).length = min (m : Nat) n := by
      rw [List.length_take, List.length_drop]
      omega
    have hreq : buildWritePdu [WriteItem.new area (start + Int32.ofNat off)
        (.byteArray (Int32.ofNat (min (m : Nat) n))) ((data.drop off).take (min (m : Nat) n))]
        cl.pduRef = writeReq cl area start data (off, min (m : Nat) n) := by
      rw [buildWritePdu_bytes _ _ _ _ (by omega), hc, writeReq]
    rw [writeLoop, dif_pos (by omega), cuts_pos m off hn, List.map_cons, session_cons, bind_assoc]
    simp only [hlen, execWrite_eq, hreq]
    congr 1
    funext b
    rw [ih (by omega), bind_assoc]
    congr 1

end Loops

/-- **`chunked_read` is a session**: one request for each piece of the range, and the payloads
    joined. -/
theorem chunkedRead_eq {cl : S7Client} (hc : cl.connected = true) (area : Area)
    (start size : Int32) :
    chunkedRead cl area start size =
      session .err readCheck (readReqs cl area start size) >>= fun bs =>
        ofResult (if bs.flatten.length = 0 then err (.itemNotFound "No data") else .ok bs.flatten) := by
  unfold chunkedRead
  rw [if_neg (by rw [hc]; decide), readLoop_eq, bind_assoc]
  congr 1
  funext bs
  rw [pure_bind, List.nil_append]
  split <;> rfl

/-- A range that fits in one chunk is one request. -/
theorem readReqs_one {cl : S7Client} {area : Area} {start size : Int32} (h₁ : 0 < size.toInt)
    (h : size.toInt ≤ maxChunk cl.pduSize 23) :
    readReqs cl area start size = [readReq cl area start (0, size.toInt.toNat)] := by
  rw [readReqs, cuts_single _ (by omega) (by omega)]
  rfl

/-- **`chunked_write` is a session**: one request for each piece of the data. -/
theorem chunkedWrite_eq {cl : S7Client} (hc : cl.connected = true) (area : Area) (start : Int32)
    (data : List UInt8) :
    chunkedWrite cl area start data =
      session .err writeReply (writeReqs cl area start data) >>= fun _ => ofResult (.ok ()) := by
  unfold chunkedWrite
  rw [if_neg (by rw [hc]; decide), writeLoop_eq _ _ _ _ _ data.length 0 (Nat.zero_add _)]
  rfl

/-- A client that is not connected does nothing. -/
theorem chunkedRead_not_connected {cl : S7Client} (hc : cl.connected = false) (area : Area)
    (start size : Int32) : chunkedRead cl area start size = ofResult (err .notConnected) := by
  rw [chunkedRead, if_pos hc]

theorem chunkedWrite_not_connected {cl : S7Client} (hc : cl.connected = false) (area : Area)
    (start : Int32) (data : List UInt8) :
    chunkedWrite cl area start data = ofResult (err .notConnected) := by
  rw [chunkedWrite, if_pos hc]

/-- What a run of `chunked_read` is: nothing without a connection, else a session. -/
theorem follows_chunkedRead {cl : S7Client} {area : Area} {start size : Int32}
    {tr : List (Event Frame Frame S7Error)} {x : S7Result (List UInt8)}
    (h : Follows (chunkedRead cl area start size).run tr x) :
    (cl.connected = false ∧ tr = [] ∧ x = err .notConnected) ∨
      (cl.connected = true ∧ ∃ y, Session .err readCheck (readReqs cl area start size) tr y ∧
        x = y.bind fun bs =>
          if bs.flatten.length = 0 then err (.itemNotFound "No data") else .ok bs.flatten) := by
  cases hc : cl.connected with
  | false =>
    rw [chunkedRead_not_connected hc] at h
    obtain ⟨rfl, rfl⟩ := follows_ret_iff.mp h
    exact Or.inl ⟨rfl, rfl, rfl⟩
  | true =>
    rw [chunkedRead_eq hc] at h
    obtain ⟨y, hs, rfl⟩ := follows_ofResult_iff.mp h
    exact Or.inr ⟨rfl, y, follows_session_iff.mp hs, rfl⟩

/-- What a run of `chunked_write` is. -/
theorem follows_chunkedWrite {cl : S7Client} {area : Area} {start : Int32} {data : List UInt8}
    {tr : List (Event Frame Frame S7Error)} {x : S7Result Unit}
    (h : Follows (chunkedWrite cl area start data).run tr x) :
    (cl.connected = false ∧ tr = [] ∧ x = err .notConnected) ∨
      (cl.connected = true ∧ ∃ y, Session .err writeReply (writeReqs cl area start data) tr y ∧
        x = y.bind fun _ => .ok ()) := by
  cases hc : cl.connected with
  | false =>
    rw [chunkedWrite_not_connected hc] at h
    obtain ⟨rfl, rfl⟩ := follows_ret_iff.mp h
    exact Or.inl ⟨rfl, rfl, rfl⟩
  | true =>
    rw [chunkedWrite_eq hc] at h
    obtain ⟨y, hs, rfl⟩ := follows_ofResult_iff.mp h
    exact Or.inr ⟨rfl, y, follows_session_iff.mp hs, rfl⟩

/-! ## 4. The operations -/

def S7Client.agRead (self : S7Client) (db start size : Int32) : Client (List UInt8) :=
  if self.connected = false then ofResult (err .notConnected)
  else chunkedRead self (.db db) start size

def S7Client.agWrite (self : S7Client) (db start : Int32) (data : List UInt8) : Client Unit :=
  if self.connected = false then ofResult (err .notConnected)
  else chunkedWrite self (.db db) start data

def S7Client.agReadInt (self : S7Client) (db start : Int32) : Client Int32 := do
  let b ← chunkedRead self (.db db) start 2
  let b0 ← ofResult (byteAt b 0)
  let b1 ← ofResult (byteAt b 1)
  let u := be16 b0 b1
  return if u ≥ 32768 then u - 65536 else u

def S7Client.agWriteInt (self : S7Client) (db start value : Int32) : Client Unit :=
  let v := if value < 0 then value + 65536 else value
  chunkedWrite self (.db db) start [tb ((v >>> 8) &&& 0xFF), tb (v &&& 0xFF)]

def S7Client.agReadWord (self : S7Client) (db start : Int32) : Client Int32 := do
  let b ← chunkedRead self (.db db) start 2
  let b0 ← ofResult (byteAt b 0)
  let b1 ← ofResult (byteAt b 1)
  return be16 b0 b1

def S7Client.agWriteWord (self : S7Client) (db start value : Int32) : Client Unit :=
  chunkedWrite self (.db db) start [tb ((value >>> 8) &&& 0xFF), tb (value &&& 0xFF)]

def S7Client.agReadDInt (self : S7Client) (db start : Int32) : Client Int32 := do
  let b ← chunkedRead self (.db db) start 4
  let f ← ofResult (DIntField.new db start b)
  return f.value

def S7Client.agWriteDInt (self : S7Client) (db start value : Int32) : Client Unit :=
  chunkedWrite self (.db db) start (dintToBytes value)

def S7Client.agReadDWord (self : S7Client) (db start : Int32) : Client Int64 := do
  let b ← chunkedRead self (.db db) start 4
  let f ← ofResult (DWordField.new db start b)
  return f.value

def S7Client.agWriteDWord (self : S7Client) (db start : Int32) (value : Int64) : Client Unit :=
  chunkedWrite self (.db db) start (dwordToBytes value)

def S7Client.ebRead (self : S7Client) (start size : Int32) : Client (List UInt8) :=
  chunkedRead self .inputs start size

def S7Client.ebWrite (self : S7Client) (start : Int32) (data : List UInt8) : Client Unit :=
  chunkedWrite self .inputs start data

def S7Client.abRead (self : S7Client) (start size : Int32) : Client (List UInt8) :=
  chunkedRead self .outputs start size

def S7Client.abWrite (self : S7Client) (start : Int32) (data : List UInt8) : Client Unit :=
  chunkedWrite self .outputs start data

def S7Client.mbRead (self : S7Client) (start size : Int32) : Client (List UInt8) :=
  chunkedRead self .flags start size

def S7Client.mbWrite (self : S7Client) (start : Int32) (data : List UInt8) : Client Unit :=
  chunkedWrite self .flags start data

/-- The reads of a range of bytes, with the area each reads. -/
inductive ByteRead (cl : S7Client) (start size : Int32) : Area → Client (List UInt8) → Prop where
  | chunked (area : Area) : ByteRead cl start size area (chunkedRead cl area start size)
  | ag (db : Int32) : ByteRead cl start size (.db db) (cl.agRead db start size)
  | eb : ByteRead cl start size .inputs (cl.ebRead start size)
  | ab : ByteRead cl start size .outputs (cl.abRead start size)
  | mb : ByteRead cl start size .flags (cl.mbRead start size)

/-- What `ag_read_int` and `ag_read_word` make of the bytes read. -/
def intValue (b : List UInt8) : S7Result Int32 := do
  let b0 ← byteAt b 0
  let b1 ← byteAt b 1
  let u := be16 b0 b1
  .ok (if u ≥ 32768 then u - 65536 else u)

def wordValue (b : List UInt8) : S7Result Int32 := do
  let b0 ← byteAt b 0
  let b1 ← byteAt b 1
  .ok (be16 b0 b1)

/-- The reads of a value, with the range each reads and what it makes of the bytes. -/
inductive ValueRead (cl : S7Client) (start : Int32) :
    {α : Type} → Area → Int32 → (List UInt8 → S7Result α) → Client α → Prop where
  | bytes {size : Int32} {area : Area} {p : Client (List UInt8)}
      (h : ByteRead cl start size area p) : ValueRead cl start area size .ok p
  | int (db : Int32) : ValueRead cl start (.db db) 2 intValue (cl.agReadInt db start)
  | word (db : Int32) : ValueRead cl start (.db db) 2 wordValue (cl.agReadWord db start)
  | dint (db : Int32) : ValueRead cl start (.db db) 4
      (fun b => (DIntField.new db start b).map DIntField.value) (cl.agReadDInt db start)
  | dword (db : Int32) : ValueRead cl start (.db db) 4
      (fun b => (DWordField.new db start b).map DWordField.value) (cl.agReadDWord db start)

/-- The writes of a list of bytes, with the area each writes. -/
inductive ByteWrite (cl : S7Client) (start : Int32) (data : List UInt8) :
    Area → Client Unit → Prop where
  | chunked (area : Area) : ByteWrite cl start data area (chunkedWrite cl area start data)
  | ag (db : Int32) : ByteWrite cl start data (.db db) (cl.agWrite db start data)
  | eb : ByteWrite cl start data .inputs (cl.ebWrite start data)
  | ab : ByteWrite cl start data .outputs (cl.abWrite start data)
  | mb : ByteWrite cl start data .flags (cl.mbWrite start data)

/-- The bytes that `ag_write_word` makes of a value, and `ag_write_int` of a signed one. -/
def wordBytes (value : Int32) : List UInt8 := [tb ((value >>> 8) &&& 0xFF), tb (value &&& 0xFF)]

def intBytes (value : Int32) : List UInt8 := wordBytes (if value < 0 then value + 65536 else value)

/-- The writes of a value, with the area each writes and the bytes it makes of the value. -/
inductive ValueWrite (cl : S7Client) (start : Int32) : Area → List UInt8 → Client Unit → Prop where
  | bytes {data : List UInt8} {area : Area} {p : Client Unit}
      (h : ByteWrite cl start data area p) : ValueWrite cl start area data p
  | int (db value : Int32) :
      ValueWrite cl start (.db db) (intBytes value) (cl.agWriteInt db start value)
  | word (db value : Int32) :
      ValueWrite cl start (.db db) (wordBytes value) (cl.agWriteWord db start value)
  | dint (db value : Int32) :
      ValueWrite cl start (.db db) (dintToBytes value) (cl.agWriteDInt db start value)
  | dword (db : Int32) (value : Int64) :
      ValueWrite cl start (.db db) (dwordToBytes value) (cl.agWriteDWord db start value)

/-- Every read of bytes is a `chunked_read`: `ag_read` only tests the connection once more. -/
theorem ByteRead.eq {cl : S7Client} {start size : Int32} {area : Area} {p : Client (List UInt8)}
    (h : ByteRead cl start size area p) : p = chunkedRead cl area start size := by
  cases h with
  | ag db =>
    rw [S7Client.agRead]
    split
    · rename_i hc
      rw [chunkedRead_not_connected hc]
    · rfl
  | chunked => rfl
  | eb => rfl
  | ab => rfl
  | mb => rfl

theorem ValueRead.eq {cl : S7Client} {start size : Int32} {area : Area} {α : Type}
    {dec : List UInt8 → S7Result α} {p : Client α} (h : ValueRead cl start area size dec p) :
    p = chunkedRead cl area start size >>= fun b => ofResult (dec b) := by
  cases h with
  | bytes h => exact h.eq.trans (bind_pure _).symm
  | int db =>
    unfold S7Client.agReadInt
    congr 1
    funext b
    rw [intValue]
    cases byteAt b 0 <;> cases byteAt b 1 <;> rfl
  | word db =>
    unfold S7Client.agReadWord
    congr 1
    funext b
    rw [wordValue]
    cases byteAt b 0 <;> cases byteAt b 1 <;> rfl
  | dint db =>
    unfold S7Client.agReadDInt
    congr 1
    funext b
    show _ = ofResult ((DIntField.new db start b).map DIntField.value)
    cases DIntField.new db start b <;> rfl
  | dword db =>
    unfold S7Client.agReadDWord
    congr 1
    funext b
    show _ = ofResult ((DWordField.new db start b).map DWordField.value)
    cases DWordField.new db start b <;> rfl

theorem ByteWrite.eq {cl : S7Client} {start : Int32} {data : List UInt8} {area : Area}
    {p : Client Unit} (h : ByteWrite cl start data area p) : p = chunkedWrite cl area start data := by
  cases h with
  | ag db =>
    rw [S7Client.agWrite]
    split
    · rename_i hc
      rw [chunkedWrite_not_connected hc]
    · rfl
  | chunked => rfl
  | eb => rfl
  | ab => rfl
  | mb => rfl

theorem ValueWrite.eq {cl : S7Client} {start : Int32} {area : Area} {data : List UInt8}
    {p : Client Unit} (h : ValueWrite cl start area data p) : p = chunkedWrite cl area start data := by
  cases h with
  | bytes h => exact h.eq
  | int => rfl
  | word => rfl
  | dint => rfl
  | dword => rfl

/-! ## 5. Answers that are rejected -/

section Rejected

variable {cl : S7Client} {start : Int32} {area : Area} {f : Frame} {d : Stop}
  {tr : List (Event Frame Frame S7Error)}

/-- **The error of an answer is the error of the read.** -/
theorem ByteRead.of_rejected {size : Int32} {p : Client (List UInt8)}
    (h : ByteRead cl start size area p) {x : S7Result (List UInt8)} (hf : Follows p.run tr x)
    (hmem : f ∈ answers tr) (hd : readCheck f = .error d) : x = .error d := by
  rw [h.eq] at hf
  rcases follows_chunkedRead hf with ⟨-, rfl, -⟩ | ⟨-, y, hs, rfl⟩
  · cases hmem
  · rw [hs.of_rejected hmem hd]
    rfl

theorem ByteWrite.of_rejected {data : List UInt8} {p : Client Unit}
    (h : ByteWrite cl start data area p) {x : S7Result Unit} (hf : Follows p.run tr x)
    (hmem : f ∈ answers tr) (hd : writeReply f = .error d) : x = .error d := by
  rw [h.eq] at hf
  rcases follows_chunkedWrite hf with ⟨-, rfl, -⟩ | ⟨-, y, hs, rfl⟩
  · cases hmem
  · rw [hs.of_rejected hmem hd]
    rfl

end Rejected

end MoonS7
