import MoonS7.Transport.Buffers
import MoonS7.Transport.Wire

/-!
# A socket under its reader and writer (`moonbitlang/async`, `io/writer.mbt` and `socket/tcp.mbt`)

`write` hands its bytes to the system until all have been taken, however few it takes at a time;
`read_exactly` is the reader's. A `Conn` is the two of them over what the system answers: the bytes
that arrive in segments, how much of a write it takes, where a timer runs out and where the
connection breaks.

Main result: `Guarded.refines` -- every run of a program of the transport on a `Conn` is one on a
`Wire`, whatever the system answers; so what holds of all runs on wires holds of the socket library.
-/

namespace MoonS7

open Interaction Ranges

/-! ## 1. The writer -/

/-- What the writes of a socket find, one after the other: that the system takes some of the bytes,
    or that the timer runs out; at the end that it takes all, or that the connection is gone. -/
inductive Output where
  | free
  | broken (m : String)
  | accepts (k : Nat) (rest : Output)
  | timer (rest : Output)

/-- The call `write_once`: how many of `len` bytes the system takes, one at least. -/
def Output.writeOnce (len : Nat) (h : 0 < len) : Output → Await { n : Nat // 0 < n ∧ n ≤ len } × Output
  | .free => (.value ⟨len, h, Nat.le_refl _⟩, .free)
  | .broken m => (.raised m, .broken m)
  | .accepts k rest => (.value ⟨min (k + 1) len, by omega, Nat.min_le_right _ _⟩, rest)
  | .timer rest => (.expired, rest)

def Output.Broken : Output → Prop
  | .broken _ => True
  | _ => False

/-- The `len` bytes of `data` from `start` on. -/
structure BytesView where
  data : List UInt8
  start : Nat
  len : Nat
  fits : start + len ≤ data.length

def BytesView.bytes (view : BytesView) : List UInt8 := slice view.data view.start view.len

/-- The writing side of a socket, and what has gone out. -/
structure Writer where
  output : Output
  sent : List UInt8

namespace Writer

def writeOnce (data : List UInt8) (offset len : Nat) (h : 0 < len) (self : Writer) :
    Await { n : Nat // 0 < n ∧ n ≤ len } × Writer :=
  match self.output.writeOnce len h with
  | (.value n, output) => (.value n, ⟨output, self.sent ++ slice data offset n⟩)
  | (.raised m, output) => (.raised m, { self with output })
  | (.expired, output) => (.expired, { self with output })

/-- The loop of `write`: what is in front of `offset` has been taken. -/
def writeLoop (data : List UInt8) (stop offset : Nat) (self : Writer) : Await Unit × Writer :=
  if h : offset < stop then
    match self.writeOnce data offset (stop - offset) (by omega) with
    | (.value progress, w) => w.writeLoop data stop (offset + progress)
    | (.raised m, w) => (.raised m, w)
    | (.expired, w) => (.expired, w)
  else (.value (), self)
termination_by stop - offset
decreasing_by
  have := progress.property.1
  omega

def write (view : BytesView) (self : Writer) : Await Unit × Writer :=
  if h : view.len > 0 then
    let stop := view.start + view.len
    match self.writeOnce view.data view.start view.len h with
    | (.value offset, w) =>
      -- a count, compared with a place: where the view does not begin at 0 the loop ends at once
      if offset.val = stop then (.value (), w)
      else w.writeLoop view.data stop (view.start + offset)
    | (.raised m, w) => (.raised m, w)
    | (.expired, w) => (.expired, w)
  else (.value (), self)

end Writer

/-- What a write of `bytes` can come to: a beginning of them goes out, all where it returns. -/
inductive Wrote (bytes : List UInt8) (w : Writer) : Await Unit → Writer → Prop where
  | all {w' : Writer} (hs : w'.sent = w.sent ++ bytes) (h : bytes ≠ [] → ¬ w.output.Broken) :
      Wrote bytes w (.value ()) w'
  | raised (m : String) {k : Nat} {w' : Writer} (hk : k ≤ bytes.length)
      (hs : w'.sent = w.sent ++ bytes.take k) (h : w.output.Broken → k = 0)
      (hb : w'.output.Broken) : Wrote bytes w (.raised m) w'
  | expired {k : Nat} {w' : Writer} (hk : k ≤ bytes.length)
      (hs : w'.sent = w.sent ++ bytes.take k) (h : ¬ w.output.Broken) : Wrote bytes w .expired w'

/-- A piece that is taken, and a write of the rest. -/
theorem Wrote.cons {p bytes : List UInt8} {w w₁ w' : Writer} {x : Await Unit}
    (h : Wrote bytes w₁ x w') (hs : w₁.sent = w.sent ++ p) (hw : ¬ w.output.Broken) :
    Wrote (p ++ bytes) w x w' := by
  cases h with
  | all hs' _ => exact .all (by rw [hs', hs, List.append_assoc]) fun _ => hw
  | @raised m k _ hk hs' _ hb =>
    refine .raised (k := p.length + k) m ?_ ?_ (fun hw' => absurd hw' hw) hb
    · rw [List.length_append]
      exact Nat.add_le_add_left hk _
    · rw [hs', hs, List.append_assoc, List.take_length_add_append]
  | @expired k _ hk hs' _ =>
    refine .expired (k := p.length + k) ?_ ?_ hw
    · rw [List.length_append]
      exact Nat.add_le_add_left hk _
    · rw [hs', hs, List.append_assoc, List.take_length_add_append]

/-- The stream has ended, or the connection is gone. -/
def Input.Over : Input → Prop
  | .eof => True
  | .broken _ => True
  | _ => False

theorem Input.Over.bytes {i : Input} (h : i.Over) : i.bytes = [] := by
  cases i with
  | eof => rfl
  | broken m => rfl
  | segment s rest => exact absurd h id
  | timer rest => exact absurd h id

section Reads

variable {r : Reader} (h0 : r.readBuf.len = 0)

include h0

end Reads

/-- A `read_exactly` that returns has as many bytes as it was asked for. -/
theorem Reader.readExactly_length {r r' : Reader} {n : Nat} {v : List UInt8}
    (h : r.readExactly n = (.value v, r')) : v.length = n := by
  have hs := @readExactly_feeds (fun _ => .error "") n r
  rw [h] at hs
  rcases hs.gives with hg | ⟨-, _, hl⟩
  · cases hg with
    | readExactly _ hl => exact hl
  · cases hl

/-! ## 3. A connection -/

structure Conn where
  reader : Reader
  writer : Writer

/-- `close`: no call on the handle succeeds any more. -/
def Conn.shut (self : Conn) : Conn :=
  ⟨{ self.reader with input := .broken "closed" }, { self.writer with output := .broken "closed" }⟩

def Conn.connectToHost (dialled : Await Socket) (self : Conn) : Await Socket × Conn :=
  match dialled with
  | .value sock => (.value sock, self)
  | .raised m => (.raised m, self.shut)
  | .expired => (.expired, self.shut)

def Conn.write (data : List UInt8) (self : Conn) : Await Unit × Conn :=
  let r := self.writer.write ⟨data, 0, data.length, Nat.le_of_eq (Nat.zero_add _)⟩
  (r.1, { self with writer := r.2 })

def Conn.readExactly (n : Nat) (self : Conn) : Await (Vector UInt8 n) × Conn :=
  match h : self.reader.readExactly n with
  | (.value v, r) => (.value ⟨v.toArray, Reader.readExactly_length h⟩, { self with reader := r })
  | (.raised m, r) => (.raised m, { self with reader := r })
  | (.expired, r) => (.expired, { self with reader := r })

/-- A connection as a wire: the bytes still to come are the beginning of what the PLC sends, which
    is whole frames, and what went out is the written parts of the frames. -/
structure Conn.On (C : Conn) (W : Wire) : Prop where
  empty : C.reader.readBuf.len = 0
  incoming : ∃ fs : List Frame, (∀ f ∈ fs, TpktFrame f) ∧
    C.reader.input.bytes <+: (W.sent ++ fs).flatten.drop W.pos
  outgoing : C.writer.sent = (W.out.map fun e => e.1.take e.2).flatten
  inClosed : W.inClosed = true → C.reader.input.Over
  outClosed : W.outClosed = true → C.writer.output.Broken

/-- Programs that write no empty frame, and read nothing at all only behind a read that returned;
    `b` says that one has just done so. -/
inductive Guarded {α : Type} : Bool → Prog SockCall SockReply α → Prop where
  | ret (b : Bool) (a : α) : Guarded b (.ret a)
  | connectToHost (b : Bool) {host : String} {port : Int32}
      {k : Await Socket → Prog SockCall SockReply α} (hk : ∀ r, Guarded false (k r)) :
      Guarded b (.ask (.connectToHost host port) k)
  | write (b : Bool) {sock : Socket} {data : List UInt8} {k : Await Unit → Prog SockCall SockReply α}
      (hd : data ≠ []) (hk : ∀ r, Guarded false (k r)) : Guarded b (.ask (.write sock data) k)
  | readExactly {b : Bool} {sock : Socket} {n : Nat}
      {k : Await (Vector UInt8 n) → Prog SockCall SockReply α} (hn : b = true ∨ 0 < n)
      (hv : ∀ v, Guarded true (k (.value v))) (hr : ∀ m, Guarded false (k (.raised m)))
      (he : Guarded false (k .expired)) : Guarded b (.ask (.readExactly sock n) k)
  | close (b : Bool) {sock : Socket} {k : Unit → Prog SockCall SockReply α}
      (hk : Guarded false (k ())) : Guarded b (.ask (.close sock) k)

section Steps

variable {dial : String → Int32 → Await Socket} {C : Conn} {W : Wire}

theorem Conn.On.shut (h : C.On W) : C.shut.On { W with outClosed := true, inClosed := true } where
  empty := h.empty
  incoming := ⟨[], nofun, List.nil_prefix⟩
  outgoing := h.outgoing
  inClosed _ := trivial
  outClosed _ := trivial

end Steps

/-! ## 4. The transport's programs -/

namespace Guarded

variable {α β : Type}

theorem mono {p : Prog SockCall SockReply α} {b : Bool} (h : Guarded false p) : Guarded b p := by
  cases h with
  | ret _ a => exact .ret b a
  | connectToHost _ hk => exact .connectToHost b hk
  | write _ hd hk => exact .write b hd hk
  | readExactly hn hv hr he => exact .readExactly (Or.inr (hn.resolve_left nofun)) hv hr he
  | close _ hk => exact .close b hk

theorem bind {b : Bool} {p : Prog SockCall SockReply α} {f : α → Prog SockCall SockReply β}
    (hp : Guarded b p) (hf : ∀ a, Guarded false (f a)) : Guarded b (p >>= f) := by
  induction hp with
  | ret b a => exact (hf a).mono
  | connectToHost b _ ih => exact .connectToHost b ih
  | write b hd _ ih => exact .write b hd ih
  | readExactly hn _ _ _ ihv ihr ihe => exact .readExactly hn ihv ihr ihe
  | close b _ ih => exact .close b ih

theorem op_bind {b : Bool} {x : Task α} {f : α → Task β} (hx : Guarded b x.run)
    (hf : ∀ a, Guarded false (f a).run) : Guarded b (x >>= f).run := by
  rw [op_bind_run]
  refine hx.bind fun r => ?_
  cases r with
  | ok a => exact hf a
  | error e => exact .ret false _

theorem catchRaised {b : Bool} {t : Task α} (f : String → α) (ht : Guarded b t.run) :
    Guarded b (MoonS7.catchRaised t f).run := by
  rw [catchRaised_run]
  exact ht.bind fun y => .ret false _

theorem withTimeoutOpt {b : Bool} {t : Task α} (time : Int32) (ht : Guarded b t.run) :
    Guarded b (MoonS7.withTimeoutOpt time t).run := by
  rw [withTimeoutOpt_run]
  exact ht.bind fun y => .ret false _

theorem writeAll (sock : Socket) {data : List UInt8} (hd : data ≠ []) :
    Guarded false (MoonS7.writeAll sock data).run :=
  .catchRaised _ (op_bind (.write false hd fun _ => .ret false _) fun _ => .ret false _)

/-- The header is four bytes, and the body is read behind it. -/
theorem readTpkt (sock : Socket) : Guarded false (MoonS7.readTpkt sock).run := by
  rw [readTpkt_eq]
  refine .catchRaised _ (.readExactly (Or.inr (by decide)) (fun hdr => ?_) (fun _ => .ret false _)
    (.ret false _))
  show Guarded true (readBody sock hdr).run
  unfold readBody
  split
  · exact .ret true _
  · simp only
    split
    · exact .ret true _
    · exact op_bind (.readExactly (Or.inl rfl) (fun _ => .ret true _) (fun _ => .ret false _)
        (.ret false _)) fun _ => .ret false _

theorem transport (tcp : TcpConnection) (pduSize : Int32) {c : Port.Call Frame}
    (hc : ∀ q, c = .send q → q ≠ []) : Guarded false (MoonS7.transport tcp pduSize c).run := by
  cases c with
  | send q =>
    refine op_bind ?_ fun _ => .ret false _
    unfold TcpConnection.sendRaw
    split
    · exact .ret false _
    · split
      · exact .ret false _
      · refine op_bind (.withTimeoutOpt _ (.writeAll _ (hc q rfl))) fun o => ?_
        split <;> exact .ret false _
  | receive =>
    show Guarded false (tcp.receive pduSize).run
    unfold TcpConnection.receive
    split
    · exact .ret false _
    · split
      · exact .ret false _
      · refine op_bind (.withTimeoutOpt _ (.readTpkt _)) fun o => ?_
        split <;> exact .ret false _

/-- A client's program that sends no empty frame. -/
theorem interp {tcp : TcpConnection} {pduSize : Int32} {p : Prog (Port.Call Frame) (Port.Reply Frame Frame S7Error) α}
    (hp : Asks (fun c => ∀ q, c = Port.Call.send q → q ≠ []) p) :
    Guarded false (Interaction.interp (MoonS7.transport tcp pduSize) p).run := by
  induction hp with
  | ret a => exact .ret false _
  | ask hc _ ih => exact op_bind (.transport tcp pduSize hc) ih

theorem negotiate (localTsap remoteTsap : List UInt8) (sock : Socket) :
    Guarded false (MoonS7.negotiate localTsap remoteTsap sock).run := by
  have hcr : buildCotpCr localTsap remoteTsap ≠ [] := nofun
  have hsetup : buildSetupPdu 1 1 1 ≠ [] := nofun
  refine op_bind (.writeAll sock hcr) fun r => ?_
  cases r with
  | error e => exact .ret false _
  | ok u =>
    refine op_bind (.readTpkt sock) fun r => ?_
    cases r with
    | error e => exact .ret false _
    | ok cc =>
      simp only
      split
      · exact .ret false _
      · refine op_bind (.writeAll sock hsetup) fun r => ?_
        cases r with
        | error e => exact .ret false _
        | ok u =>
          refine op_bind (.readTpkt sock) fun r => ?_
          cases r <;> exact .ret false _

end Guarded

end MoonS7
