import Countersign.Curve.Encoding

/-!
# Random octets

A source of randomness is a string of octets that is drawn from its beginning and starts again when
it ends. What is drawn is a function of the string and of how much was drawn before.
-/
namespace Countersign

/-- A source: the octets not drawn yet, and all of them. -/
structure Entropy where
  left : Bytes
  all : Bytes
  deriving DecidableEq, Repr

namespace Entropy

def ofBytes (b : Bytes) : Entropy :=
  ⟨b, b⟩

/-- Draws the given number of octets. A source without octets gives zeros. -/
def draw : Nat → Entropy → Bytes × Entropy
  | 0, e => ([], e)
  | n + 1, e =>
    match e.left with
    | o :: left =>
      let (more, e) := draw n ⟨left, e.all⟩
      (o :: more, e)
    | [] =>
      match e.all with
      | o :: left =>
        let (more, e) := draw n ⟨left, e.all⟩
        (o :: more, e)
      | [] =>
        let (more, e) := draw n e
        (0 :: more, e)

/-- Draws a secret factor: the first valid one among so many draws. -/
def drawScalar? : Nat → Entropy → Option (Curve.Scalar × Entropy)
  | 0, _ => none
  | tries + 1, e =>
    let (b, e) := e.draw 32
    match Curve.Scalar.decode? b with
    | some d => some (d, e)
    | none => drawScalar? tries e

/-- Draws a secret factor. A source that gives none in as many draws as it has octets has come back
to where it began, so it never gives one. -/
def scalar? (e : Entropy) : Option (Curve.Scalar × Entropy) :=
  drawScalar? (e.all.length + 1) e

end Entropy

end Countersign
