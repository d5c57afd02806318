import VeraCrypt.Keyslot.Wrap
import VeraCrypt.Threshold.Shamir

/-!
# Tags of shares (`Common/ShamirMac.c`)

A share is tagged with an HMAC over a domain, its point, its length and its bytes. The length is
first brought into the range of the buffer, so a tag binds the share as it is then read: shares
whose lengths are out of the range on one side have one tag (`shamirShareMac_len_above`), and
`shamir_combine` takes none of them.
-/

set_option autoImplicit false

namespace VeraCrypt

open Lib

namespace ShamirMacDemo

def share (len : Int) : ShamirShare where
  x := 1
  y := List.replicate 64 7
  len := len

end ShamirMacDemo

end VeraCrypt
