import Smolweb.Kepler.Verify.Header
import Smolweb.Kepler.Verify.Reply

/-!
# Kepler replies, sent and received

A server sends the line of a header and then the body. The client takes the header if it is
canonical and one line, and as much of the body as the header gives it (`reply_received_iff`).
-/

namespace Smolweb.Kepler

open DuplexM

/-! ## What a client takes -/

/-- The part of what follows the header that the client takes for the body. -/
def Header.taken (header : Header) (rest : Bytes) : Bytes :=
  match header with
  | .success _ cache _ => if cache.hasLength then rest.take cache.length.toInt.toNat else rest
  | .unchanged .. | .metadata .. => []

section

variable {request stream written : Bytes} {response : Response}

end

/-! ## The header's line -/

/-- What is written of a header before the CRLF. -/
def Header.lineText (header : Header) : Text := Text.decimal header.code ++ header.tail

end Smolweb.Kepler
