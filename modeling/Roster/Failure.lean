/-!
# Failures

What a request can fail with: a kind, which decides the answer's status, a message for the caller,
the text of what caused it, and the trail of places it passed through. A boundary may change the
kind; the message, the cause and the trail stay.
-/

namespace Roster

/-- The kinds of failure. -/
inductive FailureKind where
  /-- The caller is not known or not allowed. -/
  | unauthorized
  /-- The request names something that cannot be. -/
  | badRequest
  /-- The request names something that is not there. -/
  | notFound
  /-- Something behind the service failed. -/
  | serverError
  /-- The payload could not be read. -/
  | invalidBody
  /-- The database failed. -/
  | dbError
  deriving DecidableEq, Repr

namespace FailureKind

/-- The name of a kind, as callers see it. -/
def name : FailureKind → String
  | unauthorized => "Unauthorized"
  | badRequest => "BadRequest"
  | notFound => "NotFound"
  | serverError => "ServerError"
  | invalidBody => "InvalidBody"
  | dbError => "DbError"

/-- The kinds, in the order of their declaration. -/
def all : List FailureKind :=
  [unauthorized, badRequest, notFound, serverError, invalidBody, dbError]

/-- The kind of a name. -/
def ofName? (s : String) : Option FailureKind :=
  all.find? (·.name == s)

/-- The status that a failure of a kind is answered with. -/
def status : FailureKind → Nat
  | unauthorized => 401
  | badRequest => 400
  | notFound => 404
  | serverError => 500
  | invalidBody => 400
  | dbError => 500

end FailureKind

/-- A failure of a request. -/
structure Failure where
  /-- What kind of failure it is. -/
  kind : FailureKind
  /-- What the caller is told. -/
  message : String
  /-- The text of what caused it, empty if nothing did. -/
  cause : String := ""
  /-- The places it passed through, the outermost first. -/
  trail : List String := []
  deriving DecidableEq, Repr

namespace Failure

/-- The failure seen as one of another kind. -/
def as (kind : FailureKind) (f : Failure) : Failure :=
  { f with kind }

/-- The failure after it passed through a place. -/
def through (place : String) (f : Failure) : Failure :=
  { f with trail := place :: f.trail }

/-- The line that reports a failure: its kind in brackets, then its message. -/
def line (f : Failure) : String :=
  "[" ++ f.kind.name ++ "]: " ++ f.message

/-- The trail of a failure as text, each place followed by an arrow from the place inside it. -/
def trailText (f : Failure) : String :=
  String.intercalate " <- " f.trail

@[simp] theorem kind_as (kind : FailureKind) (f : Failure) : (f.as kind).kind = kind := rfl

@[simp] theorem message_as (kind : FailureKind) (f : Failure) :
    (f.as kind).message = f.message := rfl

@[simp] theorem kind_through (place : String) (f : Failure) :
    (f.through place).kind = f.kind := rfl

@[simp] theorem message_through (place : String) (f : Failure) :
    (f.through place).message = f.message := rfl

end Failure

/-- What an action that may fail gives back. -/
abbrev Result (α : Type) := Except Failure α

namespace Result

variable {α : Type}

/-- A result whose failure is seen as one of another kind. -/
def as (kind : FailureKind) (r : Result α) : Result α :=
  r.mapError (Failure.as kind)

/-- A result whose failure passed through a place. -/
def through (place : String) (r : Result α) : Result α :=
  r.mapError (Failure.through place)

end Result

end Roster
