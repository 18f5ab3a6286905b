import Protoo.Message

/-!
# The server's messages

The server's `Message.cpp` is the client's but for the number of a request, which its
`generateRandomNumber` takes from another distribution.  The functions are those of the
client under the names of the server.
-/

namespace Protoo.Server.Message

/-- `Message::parse` of the server. -/
def parse : JsonLibrary → String → Except Exception Json := Protoo.Message.parse

/-- `Message::createRequest` of the server, for the number drawn. -/
def createRequest : ℤ → String → Json → Json := Protoo.Message.createRequest

/-- `Message::createSuccessResponse` of the server. -/
def createSuccessResponse : Json → Json → Except Exception Json :=
  Protoo.Message.createSuccessResponse

/-- `Message::createErrorResponse` of the server. -/
def createErrorResponse : Json → ℤ → String → Except Exception Json :=
  Protoo.Message.createErrorResponse

/-- `Message::createNotification` of the server. -/
def createNotification : String → Json → Json := Protoo.Message.createNotification

end Protoo.Server.Message
