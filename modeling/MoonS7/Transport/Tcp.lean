import MoonS7.Lib.Port
import MoonS7.Protocol.Replies

/-!
# The TCP transport (`transport/tcp.mbt`)

The transport's functions as programs over the calls they make to `moonbitlang/async`: connect,
write, read exactly so many bytes, close. A call that waits ends in one of three ways (`Await`);
where the timer of the innermost `with_timeout_opt` runs out during a call, nothing after that
call happens up to the `with_timeout_opt`, whose value is then `None`.

`transport` makes the two calls of a client, send a frame and receive a frame, out of `sendRaw`
and `receive`.
-/

namespace MoonS7

open Interaction

/-! ## 1. The calls to the socket library -/

/-- A handle of an open socket. -/
structure Socket where
  handle : Nat
  deriving DecidableEq

inductive SockCall where
  | connectToHost (host : String) (port : Int32)
  | write (tcp : Socket) (data : List UInt8)
  | readExactly (tcp : Socket) (len : Nat)
  | close (tcp : Socket)

/-- How a call that waits ends: with a value, with a raised error, or with the timer of the
    `with_timeout_opt` around it. -/
inductive Await (α : Type) where
  | value (a : α)
  | raised (m : String)
  | expired

@[reducible] def SockReply : SockCall → Type
  | .connectToHost _ _ => Await Socket
  | .write _ _ => Await Unit
  | .readExactly _ n => Await (Vector UInt8 n)
  | .close _ => Unit

/-- What leaves a block early: a raised error, up to the next `catch`, or the timer, up to its
    `with_timeout_opt`. -/
inductive Interrupt where
  | raised (m : String)
  | expired

abbrev Task (α : Type) : Type := Op SockCall SockReply Interrupt α

def Await.toExcept {α : Type} : Await α → Except Interrupt α
  | .value a => .ok a
  | .raised m => .error (.raised m)
  | .expired => .error .expired

def Socket.connectToHost (host : String) (port : Int32) : Task Socket :=
  ExceptT.mk (.ask (.connectToHost host port) fun (r : Await Socket) => .ret r.toExcept)

def Socket.write (tcp : Socket) (data : List UInt8) : Task Unit :=
  ExceptT.mk (.ask (.write tcp data) fun (r : Await Unit) => .ret r.toExcept)

def Socket.readExactly (tcp : Socket) (len : Nat) : Task (Vector UInt8 len) :=
  ExceptT.mk (.ask (.readExactly tcp len) fun (r : Await (Vector UInt8 len)) => .ret r.toExcept)

def Socket.close (tcp : Socket) : Task Unit :=
  ExceptT.mk (.ask (.close tcp) fun (_ : Unit) => .ret (.ok ()))

/-- `try t catch { m => f(m) }`. -/
def catchRaised {α : Type} (t : Task α) (f : String → α) : Task α :=
  ExceptT.mk (t.run >>= fun
    | .error (.raised m) => .ret (.ok (f m))
    | r => .ret r)

/-- `with_timeout_opt(time, t)`. -/
def withTimeoutOpt {α : Type} (_time : Int32) (t : Task α) : Task (Option α) :=
  ExceptT.mk (t.run >>= fun
    | .ok a => .ret (.ok (some a))
    | .error .expired => .ret (.ok none)
    | .error (.raised m) => .ret (.error (.raised m)))

/-! ## 2. Frames on a socket -/

def writeAll (tcp : Socket) (data : List UInt8) : Task (Except S7Error Unit) :=
  catchRaised (do
    tcp.write data
    return .ok ()) fun m => .error (.transportError ("Write failed: " ++ m))

/-- One ISO-on-TCP frame: the 4-byte TPKT header, then the rest. -/
def readTpkt (tcp : Socket) : Task (Except S7Error (List UInt8)) :=
  catchRaised (do
    let hdr ← tcp.readExactly 4
    if hdr[0] ≠ 0x03 then return .error (.invalidPdu "Bad TPKT")
    else
      let total := be16 hdr[2] hdr[3]
      if total < 4 then return .error (.invalidPdu "Invalid TPKT length")
      else do
        let body ← tcp.readExactly (total - 4).toInt.toNat
        return .ok (hdr.toList ++ body.toList)) fun _ => .error .connectionClosed

/-- COTP connection request and confirm, then the setup job. -/
def negotiate (localTsap remoteTsap : List UInt8) (sock : Socket) : Task (S7Result Int32) := do
  match ← writeAll sock (buildCotpCr localTsap remoteTsap) with
  | .error e => return err e
  | .ok _ =>
    match ← readTpkt sock with
    | .error e => return err e
    | .ok cc =>
      match parseCotpCc cc with
      | .error e => return .error e
      | .ok _ =>
        match ← writeAll sock (buildSetupPdu 1 1 1) with
        | .error e => return err e
        | .ok _ =>
          match ← readTpkt sock with
          | .error e => return err e
          | .ok st => return parseSetupResp st

/-! ## 3. Connections -/

structure TcpConfig where
  host : String := "192.168.0.1"
  port : Int32 := 102
  connectTimeout : Int32 := 5000
  readTimeout : Int32 := 5000
  writeTimeout : Int32 := 5000
  localTsap : List UInt8 := [0x01, 0x00]
  remoteTsap : List UInt8 := [0x01, 0x01]

structure TcpConnection where
  config : TcpConfig
  connected : Bool
  tcp : Option Socket
  pduRef : Int32
  pduSize : Int32
  localTsap : List UInt8
  remoteTsap : List UInt8

def TcpConnection.new (c : TcpConfig) : TcpConnection where
  config := c
  connected := false
  tcp := none
  pduRef := 0
  pduSize := 480
  localTsap := c.localTsap
  remoteTsap := c.remoteTsap

/-- TCP connect, then `negotiate`, each within the connect timeout; where the negotiation fails
    or takes too long the socket is closed. -/
def TcpConnection.connect (self : TcpConnection) : Task (S7Result TcpConnection) := do
  if self.connected then return err .alreadyConnected
  else
    let cRes ← catchRaised
      (do return .ok (← withTimeoutOpt self.config.connectTimeout
        (Socket.connectToHost self.config.host self.config.port)))
      fun m => err (.connectionFailed ("connect to " ++ self.config.host ++ ":" ++
        toString self.config.port ++ ": " ++ m))
    match cRes with
    | .error e => return .error e
    | .ok none => return err .connectionTimeout
    | .ok (some sock) =>
      match ← withTimeoutOpt self.config.connectTimeout
          (negotiate self.localTsap self.remoteTsap sock) with
      | none => do
        sock.close
        return err .connectionTimeout
      | some (.error .abort) => return .error .abort
      | some (.error (.err e)) => do
        sock.close
        return err e
      | some (.ok ps) =>
        return .ok { self with connected := true, tcp := some sock, pduRef := 2, pduSize := ps }

def TcpConnection.sendRaw (self : TcpConnection) (data : List UInt8) :
    Task (Except S7Error Int32) := do
  if self.connected = false then return .error .notConnected
  else match self.tcp with
    | none => return .error .notConnected
    | some tcp =>
      match ← withTimeoutOpt self.config.writeTimeout (writeAll tcp data) with
      | none => return .error (.timeout "write timeout")
      | some (.ok _) => return .ok (Int32.ofNat data.length)
      | some (.error e) => return .error e

def TcpConnection.receive (self : TcpConnection) (_len : Int32) :
    Task (Except S7Error (List UInt8)) := do
  if self.connected = false then return .error .notConnected
  else match self.tcp with
    | none => return .error .notConnected
    | some tcp =>
      match ← withTimeoutOpt self.config.readTimeout (readTpkt tcp) with
      | none => return .error (.timeout "read timeout")
      | some (.ok d) => return .ok d
      | some (.error e) => return .error e

def TcpConnection.disconnect (self : TcpConnection) : Task Unit :=
  match self.tcp with
  | some tcp => tcp.close
  | none => pure ()

def TcpConnection.pduLength (self : TcpConnection) : Int32 := self.pduSize

/-! ## 4. The client's two calls -/

/-- A client's calls on a connection: `send_raw`, and `receive` with the client's PDU size. -/
def transport (tcp : TcpConnection) (pduSize : Int32) :
    (c : Port.Call Frame) → Op SockCall SockReply Interrupt (Port.Reply Frame Frame S7Error c)
  | .send q => do return (← tcp.sendRaw q).map fun _ => ()
  | .receive => tcp.receive pduSize

end MoonS7
