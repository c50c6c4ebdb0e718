import Countersign.Json.Decoder

/-!
# Callers

Where a request comes from: the wallet's own pages, or a web page with its origin.
-/
namespace Countersign

open Json

structure Caller where
  isInternal : Bool
  origin : String
  deriving DecidableEq, Repr

namespace Caller

def wallet : Caller :=
  ⟨true, "extension"⟩

def page (origin : String) : Caller :=
  ⟨false, origin⟩

def toJson (c : Caller) : Json :=
  .object [("isInternal", .bool c.isInternal), ("origin", .string c.origin)]

def decode : Decoder Caller :=
  Record.of Caller.mk
    |>.and (.required "isInternal" Decoder.bool)
    |>.and (.required "origin" Decoder.string)
    |>.decode

end Caller

end Countersign
