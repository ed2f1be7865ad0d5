import Fanout.Session.Document

/-! # Session descriptions

A document together with its part in the negotiation and the session it belongs to.
-/

namespace Fanout

inductive DescriptionType where
  | unspecified
  | offer
  | provisionalAnswer
  | answer
  | rollback
  deriving Repr, DecidableEq, Inhabited

namespace DescriptionType

def word : DescriptionType → String
  | unspecified => "Unspecified"
  | offer => "offer"
  | provisionalAnswer => "pranswer"
  | answer => "answer"
  | rollback => "rollback"

/-- Reads a description type; any unknown word is unspecified. -/
def ofWord : String → DescriptionType
  | "offer" => offer
  | "pranswer" => provisionalAnswer
  | "answer" => answer
  | "rollback" => rollback
  | _ => unspecified

end DescriptionType

structure Description where
  type : DescriptionType
  sessionId : String
  sessionVersion : String
  document : Document
  deriving Repr, DecidableEq, Inhabited

namespace Description

/-- One line that says what a description is and names its sections. -/
def summary (d : Description) : String :=
  s!"type: {d.type.word}, session: {d.sessionId} {d.sessionVersion}, sections: [" ++
    ", ".intercalate d.document.names ++ "]"

def expect (d : Description) (type : DescriptionType) : Except Fault Unit :=
  if d.type = type then .ok () else .error (.typeMismatch type.word d.type.word)

end Description

end Fanout
