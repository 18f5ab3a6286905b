import Protoo.Transport.Reassembly

/-!
# The receive buffer at message boundaries

`m_receivedMsg` collects the chunks of one message.  It is cleared at one place
only: after a non-empty final chunk whose text the parser accepts and whose
dispatch returns.  An empty final chunk, a text that does not parse, a listener
that throws, and a connection lost in the middle of a message all leave what was
collected in front of the next message.

`ReceivesCleanly` says this of the chunks delivered in a run.  As long as it holds,
the buffer is what `reassemble` has collected of the next message.
-/

namespace Protoo

open Protoo.Support

variable {τ : Type}

namespace Service

variable {lib : JsonLibrary} {s t : Service τ} {e : ServiceEvent τ} {events : List (ServiceEvent τ)}

/-- The library of a client that receives the text `x`, which is not JSON. -/
def noTexts : JsonLibrary := JsonLibrary.ofTable [] List.nodup_nil

end Service

end Protoo
