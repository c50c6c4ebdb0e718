import Countersign.Error
import Countersign.Json.Quantity

/-!
# Error reports

The form in which a failure reaches a page: the part of the program it comes from, its number, and
its text.
-/
namespace Countersign

open Json

/-- The form in which an error is handed to a caller. -/
structure ErrorReport where
  module : String
  code : Word 16
  message : String
  deriving DecidableEq, Repr

namespace ErrorReport

def toJson (r : ErrorReport) : Json :=
  .object [("module", .string r.module), ("code", Json.nat r.code), ("message", .string r.message)]

def decode : Decoder ErrorReport :=
  Record.of ErrorReport.mk
    |>.and (.required "module" Decoder.string)
    |>.and (.required "code" (Decoder.word 16))
    |>.and (.required "message" Decoder.string)
    |>.decode

end ErrorReport

def Error.report (e : Error) : ErrorReport :=
  ⟨e.module, .ofNat 16 e.code, e.message⟩

end Countersign
