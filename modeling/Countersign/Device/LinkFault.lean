/-!
# Failures of the link to a device

What goes wrong below the protocol of the device's apps.
-/
namespace Countersign

/-- Why an exchange, or the opening or closing of a link, failed. -/
inductive LinkFault where
  | deviceNotFound
  | disconnected
  | closed
  | other (text : String)
  deriving DecidableEq, Repr

namespace LinkFault

def message : LinkFault → String
  | .deviceNotFound => "no Ledger device found"
  | .disconnected => "Ledger device disconnected"
  | .closed => "transport is closed"
  | .other text => text

end LinkFault

def occursIn (part whole : List Char) : Bool :=
  match whole with
  | [] => part.isEmpty
  | c :: rest => part.isPrefixOf (c :: rest) || occursIn part rest

/-- A text with its ASCII capitals made small names the screen saver. -/
def namesScreenSaver (text : String) : Bool :=
  occursIn "screen saver".toList (text.toList.map Char.toLower)

/-- Some links report the screen saver of the device in words, or by the number of the status
word for a locked device. -/
def LinkFault.isScreenSaver : LinkFault → Bool
  | .other text => namesScreenSaver text || occursIn "21781".toList text.toList
  | _ => false

end Countersign
