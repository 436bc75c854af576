import Roster.Json.Token

/-!
# JSON documents

JSON text as a tree that goes as far as the text does. Where the text stops being JSON the tree ends
in a broken leaf or in a container that is not closed, so that a reader that walks the tree in the
order of the text meets its problems in the order of the text. Containers nested more deeply than a
value may be are marked: they can be skipped, but not kept.
-/

namespace Roster.Json

open Text

/-- JSON text as far as it can be read. -/
inductive Document where
  /-- The absent value. -/
  | null
  /-- A truth value. -/
  | bool (value : Bool)
  /-- A number, with its value if it is in range. -/
  | number (value : Except Flaw Number)
  /-- A text, with its value if it is Unicode text. -/
  | text (value : Except Flaw String)
  /-- An array, and whether it is closed. -/
  | array (items : List Document) (closed : Bool)
  /-- An object, and whether it is closed. -/
  | object (members : List (Option String × Document)) (closed : Bool)
  /-- A container too deep to keep. -/
  | deep (container : Document)
  /-- The place where the text stops being JSON. -/
  | broken

namespace Document

/-- How many containers may lie inside each other. -/
def greatestDepth : Nat := 127

/-- Whether a document is JSON to its end. Nothing follows the place where a text breaks off, so a
container that is closed holds no broken part. -/
def isWhole : Document → Bool
  | array _ closed => closed
  | object _ closed => closed
  | deep container => container.isWhole
  | broken => false
  | _ => true

/-- The parts of a container that has been opened and not yet closed, the last one first. -/
inductive Parts where
  /-- The items of an array. -/
  | items (read : List Document)
  /-- The members of an object. -/
  | members (read : List (Option String × Document))
  /-- The members of an object, and the name whose value comes next. -/
  | named (read : List (Option String × Document)) (name : Option String)

/-- A container that has been opened and not yet closed. -/
structure Frame where
  /-- How many containers are around it. -/
  outer : Nat
  /-- What has been read of it. -/
  parts : Parts

/-- What may come next. -/
inductive Expected where
  /-- A value. -/
  | value
  /-- The first item of an array, or its end. -/
  | firstItem
  /-- The first name of an object, or its end. -/
  | firstName
  /-- A name. -/
  | name
  /-- The colon behind a name. -/
  | colon
  /-- A comma or the end of the innermost container. -/
  | next

/-- The container of parts once the last one is known, if there is still one to come. -/
def Parts.finish (closed : Bool) (last : Option Document) : Parts → Document
  | items read => array ((last.toList ++ read).reverse) closed
  | members read => object read.reverse closed
  | named read name => object ((name, last.getD broken) :: read).reverse closed

/-- The document of a frame once its last part is known, if there is still one to come. It is marked
if it is too deep. -/
def Frame.finish (closed : Bool) (last : Option Document) (frame : Frame) : Document :=
  let container := frame.parts.finish closed last
  if frame.outer < greatestDepth then container else deep container

/-- The document of open containers when the text breaks off inside the innermost one: none of them
is closed. -/
def breakOff : List Frame → Option Document → Document
  | [], last => last.getD broken
  | frame :: frames, last => breakOff frames (frame.finish false last)

/-- Parts with one more behind them. -/
def Parts.add (part : Document) : Parts → Parts
  | items read => items (part :: read)
  | members read => members read
  | named read name => members ((name, part) :: read)

/-- The open containers with one more inside them. -/
def opened (parts : Parts) : List Frame → List Frame
  | [] => [⟨0, parts⟩]
  | frame :: frames => ⟨frame.outer + 1, parts⟩ :: frame :: frames

/-- What a token does to the open containers. -/
inductive Step where
  /-- Reading goes on. -/
  | on (expected : Expected) (frames : List Frame)
  /-- The token ends the document. -/
  | complete (document : Document)
  /-- The token cannot stand here. -/
  | refused (document : Document)

/-- A complete part takes its place in the innermost container; outside of all it is the document.
-/
def Step.part (part : Document) : List Frame → Step
  | [] => complete part
  | frame :: frames => on .next ({ frame with parts := frame.parts.add part } :: frames)

/-- The innermost container ends. -/
def Step.close : List Frame → Step
  | [] => refused broken
  | frame :: frames => Step.part (frame.finish true none) frames

/-- A value starts. -/
def Step.value (frames : List Frame) : Token → Step
  | .null => Step.part null frames
  | .bool b => Step.part (bool b) frames
  | .number n => Step.part (number n) frames
  | .text s => Step.part (text s) frames
  | .openArray => on .firstItem (opened (.items []) frames)
  | .openObject => on .firstName (opened (.members []) frames)
  | _ => refused (breakOff frames (some broken))

/-- A name comes. -/
def Step.name : List Frame → Token → Step
  | ⟨outer, .members read⟩ :: frames, .text s =>
    on .colon (⟨outer, .named read s.toOption⟩ :: frames)
  | frames, _ => refused (breakOff frames none)

/-- Behind a complete part. -/
def Step.next : List Frame → Token → Step
  | ⟨outer, .items read⟩ :: frames, .comma => on .value (⟨outer, .items read⟩ :: frames)
  | ⟨outer, .members read⟩ :: frames, .comma => on .name (⟨outer, .members read⟩ :: frames)
  | ⟨outer, .items read⟩ :: frames, .closeArray => Step.close (⟨outer, .items read⟩ :: frames)
  | ⟨outer, .members read⟩ :: frames, .closeObject => Step.close (⟨outer, .members read⟩ :: frames)
  | frames, _ => refused (breakOff frames none)

/-- What a token does where something is expected. -/
def Step.of : Expected → List Frame → Token → Step
  | .value, frames, token => Step.value frames token
  | .firstItem, frames, .closeArray => Step.close frames
  | .firstItem, frames, token => Step.value frames token
  | .firstName, frames, .closeObject => Step.close frames
  | .firstName, frames, token => Step.name frames token
  | .name, frames, token => Step.name frames token
  | .colon, frames, .colon => on .value frames
  | .colon, frames, _ => refused (breakOff frames (some broken))
  | .next, frames, token => Step.next frames token

/-- The document of a text that ends where something is still expected. -/
def unfinished : Expected → List Frame → Document
  | .value, frames => breakOff frames (some broken)
  | _, frames => breakOff frames none

/-- Builds the document of tokens inside open containers: the document and the tokens behind it. -/
def build : Expected → List Frame → List Token → Document × List Token
  | expected, frames, [] => (unfinished expected frames, [])
  | expected, frames, token :: rest =>
    match Step.of expected frames token with
    | .on expected frames => build expected frames rest
    | .complete document => (document, rest)
    | .refused document => (document, token :: rest)

/-- The document of a text, and whether nothing follows it. -/
def ofBytes (s : Bytes) : Document × Bool :=
  let (document, rest) := build .value [] (tokens s)
  (document, rest.isEmpty)

end Document

end Roster.Json
