import Countersign.Approval.Desk
import Countersign.Messaging.Service
import Countersign.Page.Answer
import Countersign.Page.Request

/-!
# The wallet

Pages send requests and get answers. Whatever concerns approvals is reserved for the wallet's own
pages; a failure is answered with its report.
-/
namespace Countersign

open Json Approval

structure Wallet where
  desk : Desk
  messaging : Messaging.Service
  random : Entropy

namespace Wallet

def withDocket (w : Wallet) (d : Docket) : Wallet :=
  { w with desk := { w.desk with docket := d } }

def perform (w : Wallet) (caller : Caller) : PageRequest → Except Error PageAnswer × Wallet
  | .approve id result => (.ok .done, w.withDocket (w.desk.docket.approve id result))
  | .reject id => (.ok .done, w.withDocket (w.desk.docket.reject id))
  | .rejectAll type =>
    let (n, r) := w.desk.docket.rejectAll type
    (.ok (.count (.ofNat 64 n)), w.withDocket r)
  | .listPending type => (.ok (.pending (w.desk.docket.pendingOf type)), w)
  | .publicKey chain =>
    let (r, s) := w.messaging.publicKey caller chain
    (r.map .publicKey, { w with messaging := s })
  | .encrypt chain address text =>
    let (r, s, random) := w.messaging.encrypt w.random chain address text
    (r.map .envelope, { w with messaging := s, random := random })
  | .decrypt chain envelope =>
    let (r, s) := w.messaging.decrypt caller chain envelope
    (r.map .message, { w with messaging := s })
  | .sign chain payload =>
    let (r, s) := w.messaging.sign caller chain payload
    (r.map .signature, { w with messaging := s })

/-- Does what a request asks for, if its caller may ask for it. -/
def dispatch (w : Wallet) (caller : Caller) (q : PageRequest) : Except Error PageAnswer × Wallet :=
  if q.needsWallet ∧ ¬caller.isInternal then
    (.error (.permissionDenied (q.kind ++ " is only accepted from the wallet")), w)
  else w.perform caller q

def handle (w : Wallet) (caller : Caller) (q : PageRequest) : PageAnswer × Wallet :=
  match w.dispatch caller q with
  | (.ok a, w) => (a, w)
  | (.error e, w) => (.error e.report, w)

def handleText (w : Wallet) (caller : Caller) (text : String) : PageAnswer × Wallet :=
  match decodeText PageRequest.decode text with
  | .ok q => w.handle caller q
  | .error e => (.error (Error.json e.message).report, w)

end Wallet

end Countersign
