import Countersign.Approval.Message
import Countersign.Page.Report

/-!
# What pages get

Each request is answered once, with what it asked for or with an error report. An answer names its
kind in one member and holds its content in another.
-/
namespace Countersign

open Json Approval

inductive PageAnswer where
  | done
  | count (n : Word 64)
  | pending (requests : List Request)
  | publicKey (key : String)
  | envelope (text : String)
  | message (text : String)
  | signature (text : String)
  | error (report : ErrorReport)

namespace PageAnswer

def kind : PageAnswer → String
  | .done => "ack"
  | .count _ => "count"
  | .pending _ => "interactions"
  | .publicKey _ => "public-key"
  | .envelope _ => "cipher-text"
  | .message _ => "message"
  | .signature _ => "signature"
  | .error _ => "error"

def part : PageAnswer → Option Json
  | .done => none
  | .count n => some (Json.nat n)
  | .pending requests => some (.array (requests.map Request.toJson))
  | .publicKey key => some (.string key)
  | .envelope text => some (.string text)
  | .message text => some (.string text)
  | .signature text => some (.string text)
  | .error report => some report.toJson

def toJson (a : PageAnswer) : Json :=
  match a.part with
  | none => .object [("type", .string a.kind)]
  | some v => .object [("type", .string a.kind), ("data", v)]

def needed {α : Type} (d : Decoder α) (f : α → PageAnswer) : PartDecoder PageAnswer :=
  .needed "data" fun t => (d t).map f

def decode : Decoder PageAnswer :=
  tagAndPart "type" "data"
    [("ack", .empty .done),
      ("count", needed (Decoder.word 64) .count),
      ("interactions", needed (Decoder.list Request.decode) .pending),
      ("public-key", needed Decoder.string .publicKey),
      ("cipher-text", needed Decoder.string .envelope),
      ("message", needed Decoder.string .message),
      ("signature", needed Decoder.string .signature),
      ("error", needed ErrorReport.decode .error)]

end PageAnswer

end Countersign
