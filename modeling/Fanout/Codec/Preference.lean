import Fanout.Codec.Capability
import Fanout.Fault

/-! # Codec preferences

Which codec a peer wants to use, and the selection of the capabilities that serve it: the codec
itself, then the repair codecs that were asked for.
-/

namespace Fanout.Codec

def retransmissionName : String := "rtx"

def flexibleCorrectionName : String := "flexfec-03"

def redundancyName : String := "red"

def unevenCorrectionName : String := "ulpfec"

/-- The codec wanted, with the parameters it has to have, and the repair codecs to go with it. -/
structure Preference where
  codecName : String
  required : Parameters
  retransmission : Bool
  /-- Without effect: uneven error correction and redundancy go with the flexible one. -/
  unevenCorrection : Bool
  flexibleCorrection : Bool
  deriving Repr, DecidableEq, Inhabited

namespace Preference

def isPrimary (p : Preference) (c : Capability) : Bool :=
  c.isNamed p.codecName && c.parameters.includes p.required

def isRepair (p : Preference) (c : Capability) : Bool :=
  if c.isNamed retransmissionName then p.retransmission
  else if c.isNamed flexibleCorrectionName || c.isNamed redundancyName ||
      c.isNamed unevenCorrectionName then
    p.flexibleCorrection
  else false

/-- Selects from the supported capabilities, in their order: first the codec wanted, of which there
has to be one, then the repair codecs. -/
def select (p : Preference) (supported : List Capability) : Except Fault (List Capability) :=
  if supported.any p.isPrimary then
    .ok (supported.filter p.isPrimary ++ supported.filter p.isRepair)
  else .error (.codecNotSupported p.codecName p.required.toFormatLine)

inductive Setting where
  | codecName (name : String)
  | requiredParameter (key value : String)
  | retransmission (wanted : Bool)
  | unevenCorrection (wanted : Bool)
  | flexibleCorrection (wanted : Bool)
  deriving Repr, DecidableEq

/-- Applies a setting in place of an earlier one. -/
def apply (p : Preference) : Setting → Preference
  | .codecName name => { p with codecName := name }
  | .requiredParameter key value => { p with required := p.required.insert key value }
  | .retransmission wanted => { p with retransmission := wanted }
  | .unevenCorrection wanted => { p with unevenCorrection := wanted }
  | .flexibleCorrection wanted => { p with flexibleCorrection := wanted }

def ofSettings (settings : List Setting) : Preference :=
  settings.foldl apply default

end Preference

end Fanout.Codec
