import MoonS7.Client.Client
import MoonS7.Transport.Traces

/-!
# Servers of frames at the other end of a socket

A server takes whole frames and may reply to each (`Service`). On a socket it gets the bytes of each
write in one piece, and its replies are read as bytes (`Service.socket`); seen from the client's two
calls it takes frames and keeps its replies until they are received (`Service.line`).

Main result: `run_onService` -- a program whose requests are replied to with frames does on the socket
what it does on the line.
-/

namespace MoonS7

open Interaction Port

/-! ## 1. Services -/

/-- A server with states `σ`: a new connection, a request, whether it has closed the connection, and
    the client closing it. -/
structure Service (σ : Type) where
  accept : σ → σ
  serve : σ → Frame → Option Frame × σ
  closed : σ → Bool
  hangUp : σ → σ

/-- The calls that send nothing but frames `P`. -/
def Requests (P : Frame → Prop) : Call Frame → Prop
  | .send q => P q
  | .receive => True

/-- A server behind a socket: its state, and the bytes of its replies not read yet. -/
structure Peer (σ : Type) where
  state : σ
  unread : List UInt8

/-- A server as the client's calls see it. -/
structure Line (σ : Type) where
  state : σ
  replies : List Frame

section Service

variable {σ : Type} (S : Service σ)

/-- Once the replies are read there is an end of the stream or, until the timer runs out, silence. -/
def Service.read (n : Nat) (s : Peer σ) : Await (Vector UInt8 n) × Peer σ :=
  if h : n ≤ s.unread.length then
    (.value ⟨(s.unread.take n).toArray, by rw [List.size_toArray, List.length_take_of_le h]⟩,
      { s with unread := s.unread.drop n })
  else if S.closed s.state then (.raised "ReaderClosed", { s with unread := [] })
  else (.expired, { s with unread := [] })

/-- Each write reaches the server whole and by itself, as if one `recv` took it: no request is cut, and
    no two are taken as one. A PLC reads what follows the header itself; what becomes of the
    simulator's requests when a `recv` returns less is `recv_requests`. -/
def Service.socket : (c : SockCall) → Peer σ → SockReply c × Peer σ
  | .connectToHost _ _, s => (Await.value ⟨0⟩, ⟨S.accept s.state, []⟩)
  | .write _ q, s => (Await.value (), ⟨(S.serve s.state q).2, s.unread ++ (S.serve s.state q).1.getD []⟩)
  | .readExactly _ n, s => S.read n s
  | .close _, s => ((), { s with state := S.hangUp s.state })

def Service.send (q : Frame) (t : Line σ) : Except S7Error Unit × Line σ :=
  (.ok (), ⟨(S.serve t.state q).2, t.replies ++ (S.serve t.state q).1.toList⟩)

def Service.receive (t : Line σ) : Except S7Error Frame × Line σ :=
  match t.replies with
  | r :: rs => (.ok r, { t with replies := rs })
  | [] => (.error (if S.closed t.state then .connectionClosed else .timeout "read timeout"), t)

def Service.line : (c : Call Frame) → Line σ → Reply Frame Frame S7Error c × Line σ :=
  handler S.send S.receive

/-- The line with its replies as bytes. -/
def Line.onSocket (t : Line σ) : Peer σ := ⟨t.state, t.replies.flatten⟩

/-- The states `I` in which every request `P` is replied to with a frame, or not at all. -/
structure Service.Framed (I : σ → Prop) (P : Frame → Prop) : Prop where
  frame : ∀ st q f, I st → P q → (S.serve st q).1 = some f → TpktFrame f
  keeps : ∀ st q, I st → P q → I (S.serve st q).2

/-- The socket carries the replies of `t`, and these are frames. -/
structure Peer.Carries (I : σ → Prop) (s : Peer σ) (t : Line σ) : Prop where
  eq : s = t.onSocket
  frames : ∀ r ∈ t.replies, TpktFrame r
  inv : I t.state

variable {S}

/-- A read of the bytes that come next. -/
theorem Service.read_value {n : Nat} (v : Vector UInt8 n) (st : σ) (rest : List UInt8) :
    S.read n ⟨st, v.toList ++ rest⟩ = (.value v, ⟨st, rest⟩) := by
  have hn : n ≤ (v.toList ++ rest).length := by
    rw [List.length_append, Vector.length_toList]
    exact Nat.le_add_right _ _
  rw [Service.read, dif_pos hn]
  refine Prod.ext ?_ ?_
  · refine congrArg Await.value (Vector.toList_inj.mp ?_)
    show (v.toList ++ rest).take n = v.toList
    exact List.take_left' Vector.length_toList
  · show Peer.mk st ((v.toList ++ rest).drop n) = _
    rw [List.drop_left' Vector.length_toList]

/-- A frame that comes next is read whole. -/
theorem Service.path_frame {f : Frame} (hf : TpktFrame f) (sock : Socket) (st : σ) (rest : List UInt8) :
    ∃ tr, TpktRead sock tr (.ok (.ok f)) ∧
      Path (fun c s r s' => S.socket c s = (r, s')) ⟨st, f ++ rest⟩ tr ⟨st, rest⟩ := by
  obtain ⟨hdr, body, hh, rfl⟩ := tpktFrame_iff.mp hf
  have hhdr := S.read_value hdr st (body.toList ++ rest)
  rw [← List.append_assoc] at hhdr
  exact ⟨_, .frame hdr body hh, .cons hhdr (.cons (S.read_value body st rest) (.nil _))⟩

section Calls

variable {tcp : TcpConnection} {sock : Socket} (ho : tcp.Open sock) {pduSize : Int32}

include ho

theorem run_send_service (q : Frame) (t : Line σ) :
    run S.socket (transport tcp pduSize (.send q)).run t.onSocket =
      (.ok (S.send q t).1, (S.send q t).2.onSocket) := by
  refine exec_run_iff.mp (exec_iff_path.mpr
    ⟨_, (follows_send_transport_iff ho).mpr ⟨.value (), rfl, rfl⟩, .cons ?_ (.nil _)⟩)
  refine Prod.ext rfl ?_
  show Peer.mk _ (t.replies.flatten ++ (S.serve t.state q).1.getD []) =
    Peer.mk _ (t.replies ++ (S.serve t.state q).1.toList).flatten
  rw [List.flatten_append]
  cases (S.serve t.state q).1 with
  | none => rfl
  | some f =>
    rw [Option.toList_some, List.flatten_singleton, Option.getD_some]
    rfl

theorem run_receive_service {t : Line σ} (ht : ∀ r ∈ t.replies, TpktFrame r) :
    run S.socket (transport tcp pduSize .receive).run t.onSocket =
      (.ok (S.receive t).1, (S.receive t).2.onSocket) := by
  obtain ⟨st, replies⟩ := t
  cases replies with
  | nil =>
    have hread : S.read 4 ⟨st, []⟩ =
        (if S.closed st then Await.raised "ReaderClosed" else .expired, (⟨st, []⟩ : Peer σ)) := by
      rw [Service.read, dif_neg (show ¬ 4 ≤ ([] : List UInt8).length from by decide)]
      split <;> rfl
    rw [Service.receive]
    by_cases hov : S.closed st = true
    · rw [if_pos hov] at hread
      refine exec_run_iff.mp (exec_iff_path.mpr
        ⟨_, (follows_receive_transport_iff ho).mpr ⟨_, .noHeader "ReaderClosed", ?_⟩, .cons hread (.nil _)⟩)
      rw [if_pos hov]
      rfl
    · rw [if_neg hov] at hread
      refine exec_run_iff.mp (exec_iff_path.mpr
        ⟨_, (follows_receive_transport_iff ho).mpr ⟨_, .headerExpired, ?_⟩, .cons hread (.nil _)⟩)
      rw [if_neg hov]
      rfl
  | cons f fs =>
    obtain ⟨tr, hread, hpath⟩ := S.path_frame (ht f List.mem_cons_self) sock st fs.flatten
    exact exec_run_iff.mp (exec_iff_path.mpr
      ⟨_, (follows_receive_transport_iff ho).mpr ⟨_, hread, rfl⟩, hpath⟩)

/-- **The two calls on the socket** do what they do on the line. -/
theorem run_transport_service {I : σ → Prop} {P : Frame → Prop} (hS : S.Framed I P) {c : Call Frame}
    (hc : Requests P c) {s : Peer σ} {t : Line σ} (h : s.Carries I t) :
    ∃ s', run S.socket (transport tcp pduSize c).run s = (.ok (S.line c t).1, s') ∧
      s'.Carries I (S.line c t).2 := by
  obtain ⟨rfl, ht, hi⟩ := h
  cases c with
  | send q =>
    refine ⟨_, run_send_service ho q t, rfl, fun r hr => ?_, hS.keeps _ _ hi hc⟩
    rcases List.mem_append.mp hr with hr | hr
    · exact ht r hr
    · exact hS.frame _ q r hi hc (Option.mem_toList.mp hr)
  | receive =>
    refine ⟨_, run_receive_service ho ht, rfl, ?_, ?_⟩
    · show ∀ r ∈ (S.receive t).2.replies, TpktFrame r
      obtain ⟨st, replies⟩ := t
      cases replies with
      | nil => exact ht
      | cons f fs => exact fun r hr => ht r (List.mem_cons_of_mem _ hr)
    · show I (S.receive t).2.state
      obtain ⟨st, replies⟩ := t
      cases replies <;> exact hi

end Calls

/-- **A program on the socket** returns what it returns on the line, and leaves the server where it
    does. -/
theorem run_onService {I : σ → Prop} {P : Frame → Prop} (hS : S.Framed I P) {cl : S7Client}
    {sock : Socket} (ho : cl.tcp.Open sock) {α : Type} {p : Client α} (hp : Asks (Requests P) p.run)
    {s : Peer σ} {t : Line σ} (h : s.Carries I t) :
    ∃ s', run S.socket (cl.onSocket p).run s = (.ok (run S.line p.run t).1, s') ∧
      s'.Carries I (run S.line p.run t).2 :=
  run_interp (fun _ _ _ hc hst => run_transport_service ho hS hc hst) hp h

/-- With no reply outstanding, an exchange returns the reply to its own request. -/
theorem run_service_exchange {t : Line σ} (ht : t.replies = []) {q resp : Frame} {st : σ}
    (h : S.serve t.state q = (some resp, st)) :
    run S.line (exchange Stop.err q : Client Frame).run t = (.ok resp, ⟨st, []⟩) := by
  have hsend : S.send q t = (.ok (), ⟨st, [resp]⟩) := by
    rw [Service.send, h, ht]
    rfl
  exact run_exchange_ok hsend rfl

end Service

end MoonS7
