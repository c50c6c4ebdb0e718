import Countersign.Error
import Countersign.Settings
import Countersign.Toml.Document

/-!
# Settings files

Settings as a user writes them, in TOML. A file must be there, must not be too long, and must hold
text; the settings in the text are judged in the order in which its tables were finished.
-/
namespace Countersign.Settings

open Json (DecodeError Format Tree)

/-- TOML has no `null`: an empty table or list is the empty part of a choice. Items that no member
takes are skipped. -/
def textFormat : Format where
  isEmpty
    | .array items => items.isEmpty
    | .object members => members.isEmpty
    | _ => false
  skipsSurplus := true

def ofText (text : String) : Except Error Settings :=
  match Toml.read? text with
  | none => .error (.config "the text breaks the rules of TOML")
  | some t => (decode textFormat t).mapError fun e => .config e.message

def maxFileSize : Nat := 1024 * 1024

/-- Reads settings from the content of a file; no content means that there is no such file. -/
def ofFile : Option Bytes → Except Error Settings
  | none => .error (.config "the file cannot be read")
  | some b =>
    if maxFileSize < b.length then .error (.config "the file is larger than 1048576 bytes")
    else
      match Utf8.decode? b with
      | some text => ofText text
      | none => .error (.config "the file cannot be read")

end Countersign.Settings
