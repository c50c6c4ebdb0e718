import Countersign.Json.Value
import Countersign.Text.Utf8

/-!
# The document behind a messaging key

The keyring signs a document that moves nothing. Its members are in ascending order at every level,
so its octets depend on the chain and the memo alone.
-/
namespace Countersign.Messaging

def signDoc (chain memo : String) : Json :=
  .object [("account_number", .string "0"), ("chain_id", .string chain),
    ("fee", .object [("amount", .array []), ("gas", .string "0")]), ("memo", .string memo),
    ("msgs", .array []), ("sequence", .string "0")]

def signDocBytes (chain memo : String) : Bytes :=
  Utf8.encode (signDoc chain memo).render

end Countersign.Messaging
