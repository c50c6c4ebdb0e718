import Countersign.Device.LinkFault
import Countersign.Text.Digits
import Countersign.Text.Quoted

/-!
# Errors

Every way in which an operation is refused or fails. Each error belongs to a part of the program
and has a number there; together with its text they make the report that a caller gets.
-/
namespace Countersign

inductive Error where
  | appNotInitialised (app : String)
  | failedInit (detail : String)
  | failedGetVersion (detail : String)
  | failedGetPublicKey (detail : String)
  | failedSign (detail : String)
  | signRejected
  | unsupportedApp (expected actual : String)
  | deviceLocked
  | device (status : Nat) (text : String)
  | sessionClosed
  | invalidPathLength (length : Nat)
  | malformedResponse (detail : String)
  | link (fault : LinkFault)
  | emptyInteractionType
  | duplicateInteractionId (id : String)
  | rejected
  | interactionTimedOut (id : String)
  | interactionAbandoned (id : String)
  | unknownSignType (name : String)
  | publicKeyLookupNotImplemented (address : String)
  | invalidPublicKey (detail : String)
  | invalidPrivateKey (detail : String)
  | encryption (detail : String)
  | keyring (text : String)
  | base64DecodeFailed (detail : String)
  | invalidSignature (detail : String)
  | addressDerivationFailed (detail : String)
  | invalidTransaction (detail : String)
  | invalidTypedData (detail : String)
  | undefinedType (name : String)
  | permissionDenied (detail : String)
  | config (detail : String)
  | hexDecodeFailed (detail : String)
  | json (detail : String)
  deriving DecidableEq, Repr

namespace Error

def module : Error → String
  | .appNotInitialised _ | .failedInit _ | .failedGetVersion _ | .failedGetPublicKey _
  | .failedSign _ | .signRejected | .unsupportedApp _ _ | .deviceLocked | .device _ _
  | .sessionClosed | .invalidPathLength _ | .malformedResponse _ => "ledger"
  | .link _ => "transport"
  | .emptyInteractionType | .duplicateInteractionId _ | .rejected | .interactionTimedOut _
  | .interactionAbandoned _ | .unknownSignType _ => "interaction"
  | .publicKeyLookupNotImplemented _ | .invalidPublicKey _ | .invalidPrivateKey _ | .encryption _
  | .keyring _ | .base64DecodeFailed _ => "messaging"
  | .invalidSignature _ | .addressDerivationFailed _ | .invalidTransaction _ | .invalidTypedData _
  | .undefinedType _ => "ethereum"
  | .permissionDenied _ => "router"
  | .config _ => "config"
  | .hexDecodeFailed _ | .json _ => "encoding"

def code : Error → Nat
  | .appNotInitialised _ => 100
  | .sessionClosed => 101
  | .failedInit _ => 102
  | .failedGetVersion _ => 103
  | .failedGetPublicKey _ => 104
  | .failedSign _ => 105
  | .signRejected => 106
  | .invalidPathLength _ => 107
  | .malformedResponse _ => 108
  | .device _ _ => 109
  | .unsupportedApp _ _ => 110
  | .deviceLocked => 111
  | .link _ => 120
  | .emptyInteractionType => 200
  | .duplicateInteractionId _ => 201
  | .rejected => 202
  | .interactionTimedOut _ => 203
  | .interactionAbandoned _ => 204
  | .unknownSignType _ => 205
  | .publicKeyLookupNotImplemented _ => 300
  | .invalidPublicKey _ => 301
  | .invalidPrivateKey _ => 302
  | .encryption _ => 303
  | .keyring _ => 304
  | .base64DecodeFailed _ => 305
  | .invalidSignature _ => 400
  | .addressDerivationFailed _ => 401
  | .invalidTransaction _ => 402
  | .invalidTypedData _ => 404
  | .undefinedType _ => 405
  | .permissionDenied _ => 500
  | .config _ => 600
  | .hexDecodeFailed _ => 700
  | .json _ => 701

def statusText (status : Nat) : String :=
  let ds := Nat.toDigits 16 status
  String.ofList ('0' :: 'x' :: List.replicate (4 - ds.length) '0' ++ ds)

def message : Error → String
  | .appNotInitialised app =>
    app ++ " app is not initialised. Open the " ++ app ++ " app on Ledger and try again"
  | .failedInit detail =>
    "Failed to init transport. Connect and unlock your Ledger device: " ++ detail
  | .failedGetVersion detail => "Failed to get version from Ledger: " ++ detail
  | .failedGetPublicKey detail => "Failed to get public key from Ledger: " ++ detail
  | .failedSign detail => "Failed to sign on Ledger: " ++ detail
  | .signRejected => "Signing request was rejected on the Ledger device"
  | .unsupportedApp expected actual =>
    "Unsupported app " ++ Text.quoted actual ++ ". Open the " ++ expected
      ++ " app on Ledger and try again"
  | .deviceLocked => "Unlock your Ledger device and try again"
  | .device status text => "Ledger device error " ++ statusText status ++ ": " ++ text
  | .sessionClosed => "Ledger session is closed"
  | .invalidPathLength length =>
    "invalid length of path: expected 5, got " ++ Digits.decimal length
  | .malformedResponse detail => "malformed device response: " ++ detail
  | .link fault => fault.message
  | .emptyInteractionType => "interaction type is empty"
  | .duplicateInteractionId id => "interaction id " ++ id ++ " is already pending"
  | .rejected => "Request rejected"
  | .interactionTimedOut id => "interaction " ++ id ++ " timed out"
  | .interactionAbandoned id => "interaction " ++ id ++ " was abandoned"
  | .unknownSignType name => "unknown sign type: " ++ name
  | .publicKeyLookupNotImplemented address =>
    "public key lookup for " ++ address ++ " is not implemented"
  | .invalidPublicKey detail => "invalid public key: " ++ detail
  | .invalidPrivateKey detail => "invalid private key: " ++ detail
  | .encryption detail => "encryption failed: " ++ detail
  | .keyring text => text
  | .base64DecodeFailed detail => "base64 decoding failed: " ++ detail
  | .invalidSignature detail => "invalid signature: " ++ detail
  | .addressDerivationFailed detail => "address derivation failed: " ++ detail
  | .invalidTransaction detail => "invalid transaction: " ++ detail
  | .invalidTypedData detail => "invalid EIP-712 typed data: " ++ detail
  | .undefinedType name => "undefined type in EIP-712 data: " ++ name
  | .permissionDenied detail => "permission denied: " ++ detail
  | .config detail => "invalid configuration: " ++ detail
  | .hexDecodeFailed detail => "hex decoding failed: " ++ detail
  | .json detail => "JSON error: " ++ detail

end Error

end Countersign
