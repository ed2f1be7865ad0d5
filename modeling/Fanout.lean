import Fanout.Codec.Preference
import Fanout.Json.Inverse
import Fanout.Negotiation
import Fanout.Session.Form
import Fanout.Proofs.Registry
import Fanout.Proofs.Sections
import Fanout.Proofs.Bundling
import Fanout.Proofs.Runs
import Fanout.Proofs.Survey
import Fanout.Proofs.FanOut
import Fanout.Proofs.Acceptance
import Fanout.Proofs.Gather
import Fanout.Proofs.RoundTrip
import Fanout.Proofs.Validation
import Fanout.Proofs.Validity
import Fanout.Proofs.Filling
import Fanout.Proofs.Candidates
import Fanout.Proofs.Reordering
import Fanout.Proofs.AnswerAcceptance
import Fanout.Proofs.Transparency
import Fanout.Proofs.Projection
import Fanout.Proofs.Forms
import Fanout.Proofs.OutwardOffer
import Fanout.Proofs.InwardAnswer
import Fanout.Proofs.Namesakes
import Fanout.Proofs.Transports
import Fanout.Proofs.Renumbering
import Fanout.Proofs.Arrangement
import Fanout.Proofs.ExtensionLookups
import Fanout.Proofs.Capture
import Fanout.Proofs.Tolerance
import Fanout.Proofs.Parameters
import Fanout.Proofs.Texts
import Fanout.Proofs.FormatLines
import Fanout.Proofs.Selection
