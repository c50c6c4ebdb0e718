import Countersign.Json.Quantity

/-!
# Settings

What a user may set, section by section. Every section and every setting has a default, and names
that are not settings are refused.
-/
namespace Countersign

open Json

inductive LogLevel where
  | error
  | warn
  | info
  | debug
  | trace
  deriving DecidableEq, Repr

namespace LogLevel

def name : LogLevel → String
  | .error => "error"
  | .warn => "warn"
  | .info => "info"
  | .debug => "debug"
  | .trace => "trace"

def names : List (String × LogLevel) :=
  [("error", .error), ("warn", .warn), ("info", .info), ("debug", .debug), ("trace", .trace)]

end LogLevel

structure DeviceSettings where
  /-- The name that the device's app for Cosmos chains must report. -/
  cosmosAppName : String := "Cosmos"
  /-- The first part of the addresses that the device shows. -/
  addressHead : String := "cosmos"
  deriving DecidableEq, Repr

/-- The memo of the document whose signature becomes a messaging key. -/
def derivationMemo : String :=
  "Signing this message derives your encrypted messaging key. It is not a transaction and costs "
    ++ "no fees."

structure Settings where
  level : LogLevel := .info
  /-- How many seconds a request waits for a decision; absent means for ever. -/
  timeout : Option (Word 64) := none
  device : DeviceSettings := {}
  memo : String := derivationMemo
  deriving DecidableEq, Repr

namespace Settings

/-- A timeout is absent or at least one second. -/
def decodeTimeout : Decoder (Option (Word 64)) :=
  fun t => do
    match ← Decoder.nullable (Decoder.word 64) t with
    | some n =>
      if n.val = 0 then .error (.because "timeout must be greater than 0") else .ok (some n)
    | none => .ok none

def decodeLogging (format : Format) : Decoder LogLevel :=
  Record.of id
    |>.and (.optional "level" (Decoder.oneOf format LogLevel.names) .info)
    |>.decodeClosed format

def decodeInteraction (format : Format) : Decoder (Option (Word 64)) :=
  Record.of id
    |>.and (.optional "timeout_secs" decodeTimeout none)
    |>.decodeClosed format

def decodeDevice (format : Format) : Decoder DeviceSettings :=
  Record.of DeviceSettings.mk
    |>.and (.optional "cosmos_app_name" Decoder.string "Cosmos")
    |>.and (.optional "bech32_prefix" Decoder.string "cosmos")
    |>.decodeClosed format

def decodeMessaging (format : Format) : Decoder String :=
  Record.of id
    |>.and (.optional "memo" Decoder.string derivationMemo)
    |>.decodeClosed format

def decode (format : Format) : Decoder Settings :=
  Record.of Settings.mk
    |>.and (.optional "logging" (decodeLogging format) .info)
    |>.and (.optional "interaction" (decodeInteraction format) none)
    |>.and (.optional "ledger" (decodeDevice format) {})
    |>.and (.optional "messaging" (decodeMessaging format) derivationMemo)
    |>.decodeClosed format

def toJson (s : Settings) : Json :=
  .object [("logging", .object [("level", .string s.level.name)]),
    ("interaction", .object [("timeout_secs", Json.ofOption (s.timeout.map fun n => Json.nat n))]),
    ("ledger", .object [("cosmos_app_name", .string s.device.cosmosAppName),
      ("bech32_prefix", .string s.device.addressHead)]),
    ("messaging", .object [("memo", .string s.memo)])]

end Settings

end Countersign
