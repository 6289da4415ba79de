import LineageJournal.Json.Token

/-! Reading JSON text. The reader keeps the arrays and objects that are still open on a stack
of its own, so documents may be nested to any depth. -/

namespace LineageJournal.Json

/-- What is open around the current place, with items and members in reverse. -/
inductive Frame where
  | array (items : List Json)
  | object (members : List (Option String × Json)) (key : Option String)

inductive Progress where
  | expectValue (stack : List Frame)
  /-- After the opening mark of an array. -/
  | expectItem (stack : List Frame)
  /-- After the opening mark of an object. -/
  | expectMember (stack : List Frame)
  | expectKey (stack : List Frame) (members : List (Option String × Json))
  | expectColon (stack : List Frame) (members : List (Option String × Json))
      (key : Option String)
  | complete (stack : List Frame) (value : Json)

namespace Progress

def onValue (stack : List Frame) : Token → Option Progress
  | .atom value => some (complete stack value)
  | .openArray => some (expectItem stack)
  | .openObject => some (expectMember stack)
  | _ => none

def onKey (stack : List Frame) (members : List (Option String × Json)) :
    Token → Option Progress
  | .atom (.text key) => some (expectColon stack members (some key))
  | .atom .brokenText => some (expectColon stack members none)
  | _ => none

def onComplete (stack : List Frame) (value : Json) (token : Token) : Option Progress :=
  match stack, token with
  | .array items :: stack, .comma => some (expectValue (.array (value :: items) :: stack))
  | .array items :: stack, .closeArray =>
      some (complete stack (.array (value :: items).reverse))
  | .object members key :: stack, .comma => some (expectKey stack ((key, value) :: members))
  | .object members key :: stack, .closeObject =>
      some (complete stack (.object ((key, value) :: members).reverse))
  | _, _ => none

def step (progress : Progress) (token : Token) : Option Progress :=
  match progress, token with
  | expectValue stack, token => onValue stack token
  | expectItem stack, .closeArray => some (complete stack (.array []))
  | expectItem stack, token => onValue (.array [] :: stack) token
  | expectMember stack, .closeObject => some (complete stack (.object []))
  | expectMember stack, token => onKey stack [] token
  | expectKey stack members, token => onKey stack members token
  | expectColon stack members key, .colon => some (expectValue (.object members key :: stack))
  | expectColon _ _ _, _ => none
  | complete stack value, token => onComplete stack value token

def run? : Progress → List Token → Option Json
  | complete [] value, [] => some value
  | _, [] => none
  | progress, token :: rest => (progress.step token).bind fun next => next.run? rest

end Progress

/-- The document that is the whole of the text, but for blanks. -/
def parse? (document : String) : Option Json :=
  (tokens? document).bind fun tokens => (Progress.expectValue []).run? tokens

end LineageJournal.Json
