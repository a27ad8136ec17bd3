import MoonS7.Client.Client
import MoonS7.Transport.Traces

/-!
# The PDU size of a connection

The setup reply of a PLC has 27 bytes, the last two of them the PDU size it grants.
`parse_setup_resp` looks for the size in these two bytes only if there are 28.

Main results: `follows_connect_ok_iff` -- a client that `connect` returns has the size that
`parse_setup_resp` reads from the last frame; `setup_granted_iff` -- this is the size granted
exactly if the reply has a trailing byte or the size is 480. `setup_granted_refuted` is a grant of
240.
-/

namespace MoonS7

open Interaction

/-! ## 1. Setup replies -/

/-- The two bytes of a 16-bit number. -/
def high (v : UInt16) : UInt8 := UInt8.ofNat (v.toNat / 256)

def low (v : UInt16) : UInt8 := UInt8.ofNat v.toNat

/-- An Ack-Data frame with the parameters of a setup job: the numbers of parallel jobs and the
    size granted. -/
def setupReply (refn dlen calling called p : UInt16) (trailing : List UInt8) : Frame :=
  let total := UInt16.ofNat (27 + trailing.length)
  [0x03, 0x00, high total, low total, 0x02, 0xF0, 0x80,
    pid, 0x03, 0x00, 0x00, high refn, low refn, 0x00, 0x08, high dlen, low dlen, 0x00, 0x00,
    0xF0, 0x00, high calling, low calling, high called, low called, high p, low p] ++ trailing

section Reply

variable (refn dlen calling called p : UInt16) (trailing : List UInt8)

theorem length_setupReply :
    (setupReply refn dlen calling called p trailing).length = 27 + trailing.length := by
  simp [setupReply]
  omega

theorem isHeader_setupReply :
    isHeader msgType (setupReply refn dlen calling called p trailing) 7 = true :=
  isHeader_iff.mpr ⟨rfl, 0x03, rfl, by decide⟩

theorem toNat_high_low (v : UInt16) : (high v).toNat * 256 + (low v).toNat = v.toNat := by
  have hv := v.toNat_lt
  rw [high, low, UInt8.toNat_ofNat', UInt8.toNat_ofNat']
  omega

theorem be16_high_low (v : UInt16) : be16 (high v) (low v) = Int32.ofNat v.toNat := by
  rw [be16_eq, toNat_high_low]

/-- **The size read from a setup reply**: 480 from a reply of exactly 27 bytes, whatever it
    grants. -/
theorem parseSetupResp_setupReply :
    parseSetupResp (setupReply refn dlen calling called p trailing) =
      .ok (if trailing = [] then 480 else Int32.ofNat p.toNat) := by
  obtain ⟨s7, hs, -⟩ := findHeader_of_isHeader (isHeader_setupReply refn dlen calling called p trailing)
  have hlen := length_setupReply refn dlen calling called p trailing
  rcases parseSetupResp_eq hs (by omega) with ⟨h, he⟩ | ⟨a, b, h, ha, hb, he⟩
  · rw [he, if_pos (List.length_eq_zero_iff.mp (by omega))]
  · have h25 : (setupReply refn dlen calling called p trailing)[25]? = some (high p) := rfl
    have h26 : (setupReply refn dlen calling called p trailing)[26]? = some (low p) := rfl
    obtain rfl := Option.some.inj (h25.symm.trans ha)
    obtain rfl := Option.some.inj (h26.symm.trans hb)
    rw [he, be16_high_low, if_neg]
    rintro rfl
    rw [hlen] at h
    exact absurd h (by decide)

theorem granted_iff : (if trailing = [] then 480 else Int32.ofNat p.toNat) = Int32.ofNat p.toNat ↔
    trailing ≠ [] ∨ p = 480 := by
  by_cases ht : trailing = []
  · rw [if_pos ht]
    refine ⟨fun h => Or.inr ?_, fun h => ?_⟩
    · have hp := p.toNat_lt
      have := congrArg bits h
      rw [bits_ofNat, show bits 480 = 480 from rfl] at this
      exact UInt16.toNat.inj (by show p.toNat = 480; omega)
    · rcases h with h | rfl
      · exact absurd ht h
      · rfl
  · rw [if_neg ht]
    exact ⟨fun _ => Or.inl ht, fun _ => rfl⟩

end Reply

/-! ## 2. The size of a connection -/

/-- **A client that `connect` returns**: the calls made, and the PDU size in it. -/
theorem follows_connect_ok_iff {cl cl' : S7Client} {tr : List SockEvent} :
    Follows cl.connect.run tr (.ok (.ok cl')) ↔ cl.connected = false ∧ cl.tcp.connected = false ∧
      ∃ sock cc st ps tr',
        tr = ⟨.connectToHost cl.tcp.config.host cl.tcp.config.port, .value sock⟩ :: tr' ∧
        Negotiates cl.tcp.localTsap cl.tcp.remoteTsap sock cc st tr' ∧
        (∃ n, parseCotpCc cc = .ok n) ∧ parseSetupResp st = .ok ps ∧
        cl' = { tcp := cl.tcp.opened sock ps, connected := true, pduRef := 3, pduSize := ps } := by
  unfold S7Client.connect
  cases cl.connected with
  | true =>
    rw [if_pos rfl]
    refine ⟨fun h => ?_, fun ⟨h, _⟩ => by cases h⟩
    obtain ⟨hb, -⟩ := follows_ret_iff.mp h
    cases hb
  | false =>
    rw [if_neg Bool.false_ne_true, follows_match_ok_iff (g := id)]
    swap
    · exact fun _ => rfl
    constructor
    · rintro ⟨tc, tr₁, tr₂, rfl, h₁, h₂⟩
      obtain ⟨hb, rfl⟩ := follows_ret_iff.mp h₂
      cases hb
      obtain ⟨hc, sock, ps, tr', rfl, hneg, rfl⟩ := follows_tcpConnect_ok_iff.mp h₁
      obtain ⟨cc, st, hn, hcc, hst⟩ := follows_negotiate_ok_iff.mp hneg
      exact ⟨rfl, hc, sock, cc, st, ps, tr', List.append_nil _, hn, hcc, hst, rfl⟩
    · rintro ⟨-, hc, sock, cc, st, ps, tr', rfl, hn, hcc, hst, rfl⟩
      exact ⟨_, _, [], (List.append_nil _).symm, follows_tcpConnect_ok_iff.mpr ⟨hc, sock, ps, tr', rfl,
        follows_negotiate_ok_iff.mpr ⟨cc, st, hn, hcc, hst⟩, rfl⟩, .ret _⟩

/-- A frame with its own length in it can be read. -/
theorem exists_tpktRead {f : Frame} (h : TpktFrame f) (sock : Socket) :
    ∃ tr, TpktRead sock tr (.ok (.ok f)) := by
  obtain ⟨hdr, body, hh, rfl⟩ := tpktFrame_iff.mp h
  exact ⟨_, .frame hdr body hh⟩

theorem tpktFrame_setupReply (refn dlen calling called p : UInt16) (trailing : List UInt8)
    (h : 27 + trailing.length ≤ 65535) :
    TpktFrame (setupReply refn dlen calling called p trailing) := by
  refine ⟨_, _, _, _, rfl, ?_⟩
  rw [length_setupReply, toNat_high_low, UInt16.toNat_ofNat']
  omega

/-- **The PDU size granted is the one used** exactly if the reply is longer than it need be, or
    the size is the default. -/
theorem setup_granted_iff (refn dlen calling called p : UInt16) (trailing : List UInt8) :
    (parseSetupResp (setupReply refn dlen calling called p trailing) = .ok (Int32.ofNat p.toNat) ↔
      trailing ≠ [] ∨ p = 480) ∧
    ∀ (cl : S7Client) (sock : Socket) (cc : Frame) (tr : List SockEvent),
      cl.connected = false → cl.tcp.connected = false → (∃ n, parseCotpCc cc = .ok n) →
      Negotiates cl.tcp.localTsap cl.tcp.remoteTsap sock cc
        (setupReply refn dlen calling called p trailing) tr →
      ∃ cl' : S7Client,
        (∀ x, Follows cl.connect.run
          (⟨.connectToHost cl.tcp.config.host cl.tcp.config.port, .value sock⟩ :: tr) x ↔
            x = .ok (.ok cl')) ∧
        ((cl'.pduSize = Int32.ofNat p.toNat ∧
            ∀ overhead, maxChunk cl'.pduSize overhead = maxChunk (Int32.ofNat p.toNat) overhead) ↔
          trailing ≠ [] ∨ p = 480) := by
  refine ⟨?_, fun cl sock cc tr hc ht hcc hn => ?_⟩
  · rw [parseSetupResp_setupReply, Except.ok.injEq, granted_iff]
  · have hf := follows_connect_ok_iff.mpr ⟨hc, ht, sock, cc, _, _, tr, rfl, hn, hcc,
      parseSetupResp_setupReply refn dlen calling called p trailing, rfl⟩
    refine ⟨_, fun x => ⟨fun h => h.unique hf, fun h => by rw [h]; exact hf⟩, ?_⟩
    rw [← granted_iff p trailing]
    exact ⟨fun h => h.1, fun h => ⟨h, fun overhead => by rw [h]⟩⟩

/-- A connection confirm. -/
def confirmFrame : Frame := [0x03, 0x00, 0x00, 0x07, 0x11, 0xD0, 0x00]

theorem tpktFrame_confirmFrame : TpktFrame confirmFrame := ⟨_, _, _, _, rfl, rfl⟩

/-- A PLC that grants 240 bytes, in 28 and in 27. -/
theorem setup_granted_240 :
    (parseSetupResp (setupReply 1 0 8 8 240 [0]) = .ok 240 ↔ [(0 : UInt8)] ≠ [] ∨ (240 : UInt16) = 480) ∧
    ∃ tr cl', (∀ x, Follows S7Client.new.connect.run
        (⟨.connectToHost "192.168.0.1" 102, .value ⟨0⟩⟩ :: tr) x ↔ x = .ok (.ok cl')) ∧
      ((cl'.pduSize = 240 ∧ ∀ overhead, maxChunk cl'.pduSize overhead = maxChunk 240 overhead) ↔
        ([] : List UInt8) ≠ [] ∨ (240 : UInt16) = 480) := by
  refine ⟨(setup_granted_iff 1 0 8 8 240 [0]).1, ?_⟩
  obtain ⟨tr₁, h₁⟩ := exists_tpktRead tpktFrame_confirmFrame ⟨0⟩
  obtain ⟨tr₂, h₂⟩ :=
    exists_tpktRead (tpktFrame_setupReply 1 0 8 8 240 [] (by decide)) ⟨0⟩
  exact ⟨_, (setup_granted_iff 1 0 8 8 240 []).2 S7Client.new ⟨0⟩ confirmFrame _ rfl rfl
    ⟨1024, by decide⟩ ⟨tr₁, tr₂, h₁, h₂, rfl⟩⟩

/-- **A size that is not used**: the reply of 27 bytes that grants 240 gives 480. -/
theorem setup_granted_refuted :
    ¬ ∀ (refn dlen calling called p : UInt16) (trailing : List UInt8),
      27 + trailing.length ≤ 65535 →
      parseSetupResp (setupReply refn dlen calling called p trailing) = .ok (Int32.ofNat p.toNat) := by
  intro h
  have h240 := h 1 0 8 8 240 [] (by decide)
  rw [parseSetupResp_setupReply] at h240
  revert h240
  decide

end MoonS7
