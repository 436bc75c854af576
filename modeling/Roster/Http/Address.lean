import Roster.Text.Percent
import Roster.Text.Split

/-!
# Addresses

What a request to an address asks for: the path and the query behind the host. An address may be
written loosely. Blanks around it and line breaks inside it are dropped, a backslash is a slash, a
segment `.` stays where it is, a segment `..` goes back by one, and what may not be sent as it is
gets escaped. A fragment is not sent. The main statement, `isDots_eq_false_of_mem_follow`, says
that no segment of dots is sent.
-/

namespace Roster.Http.Address

open Text

/-- The characters of an address without those around and inside it that mean nothing. -/
def clean (s : List Char) : List Char :=
  let blank (c : Char) : Bool := c ≤ ' '
  ((s.dropWhile blank).reverse.dropWhile blank).reverse.filter fun c =>
    !(c == '\t' || c == '\n' || c == '\r')

/-- Whether a character separates two segments of a path. -/
def isSlash (c : Char) : Bool :=
  c == '/' || c == '\\'

/-- Whether a character ends a host. -/
def endsHost (c : Char) : Bool :=
  isSlash c || c == '?' || c == '#'

/-- What stands behind the scheme and the host of an address. One without a scheme of the web is a
path already. -/
def behindHost (s : List Char) : List Char :=
  match splitAtFirst "://".toList s with
  | some (scheme, rest) =>
    let scheme := String.ofList (scheme.map Char.toLower)
    if scheme = "http" ∨ scheme = "https" then rest.dropWhile (!endsHost ·) else s
  | none => s

/-! ### Segments -/

/-- A segment with the escapes of dots read. -/
def readDots : List Char → List Char
  | '%' :: '2' :: 'e' :: s => '.' :: readDots s
  | '%' :: '2' :: 'E' :: s => '.' :: readDots s
  | c :: s => c :: readDots s
  | [] => []

/-- Whether a segment stays where it is. -/
def isHere (segment : List Char) : Bool :=
  readDots segment == ['.']

/-- Whether a segment goes back by one. -/
def isBack (segment : List Char) : Bool :=
  readDots segment == ['.', '.']

/-- Whether a segment says where to go and not what is there. -/
def isDots (segment : List Char) : Bool :=
  isHere segment || isBack segment

/-- Goes on by a segment from behind others, the last of which comes first. -/
def step (behind : List (List Char)) (segment : List Char) : List (List Char) :=
  if isBack segment then behind.tail else if isHere segment then behind else segment :: behind

/-- Where segments lead from behind others. Dots at the end lead to an empty segment. -/
def follow (behind : List (List Char)) : List (List Char) → List (List Char)
  | [] => behind.reverse
  | [segment] => (if isDots segment then [] :: step behind segment else segment :: behind).reverse
  | segment :: rest => follow (step behind segment) rest

/-- A step leaves no dots behind. -/
theorem isDots_eq_false_of_mem_step {behind : List (List Char)} {segment s : List Char}
    (h : ∀ t ∈ behind, isDots t = false) (hs : s ∈ step behind segment) : isDots s = false := by
  unfold step at hs
  split at hs
  · exact h s (List.mem_of_mem_tail hs)
  · split at hs
    · exact h s hs
    · rcases List.mem_cons.mp hs with rfl | hs
      · simp_all [isDots]
      · exact h s hs

/-- No segment of dots is left. -/
theorem isDots_eq_false_of_mem_follow {behind segments : List (List Char)} {s : List Char}
    (h : ∀ t ∈ behind, isDots t = false) (hs : s ∈ follow behind segments) : isDots s = false := by
  fun_induction follow behind segments with
  | case1 behind => exact h s (List.mem_reverse.mp hs)
  | case2 behind segment =>
    rw [List.mem_reverse] at hs
    split at hs
    · rcases List.mem_cons.mp hs with rfl | hs
      · rfl
      · exact isDots_eq_false_of_mem_step h hs
    · rcases List.mem_cons.mp hs with rfl | hs
      · simp_all
      · exact h s hs
  | case3 behind segment rest _ ih => exact ih (fun t ht => isDots_eq_false_of_mem_step h ht) hs

/-! ### What is sent -/

/-- Whether a byte is a visible ASCII character. -/
def isVisible (b : UInt8) : Bool :=
  0x21 ≤ b && b ≤ 0x7E

/-- Whether a byte of a path is sent as it is. -/
def isPathByte (b : UInt8) : Bool :=
  isVisible b && !(utf8 "\"#<>?^`\x7b\x7d").contains b

/-- Whether a byte of a query is sent as it is. -/
def isQueryByte (b : UInt8) : Bool :=
  isVisible b && !(utf8 "\"#'<>").contains b

/-- The path that is sent for one that is written. -/
def path (s : List Char) : Bytes :=
  let segments := match s with
    | c :: rest => if isSlash c then rest.splitOnP isSlash else (c :: rest).splitOnP isSlash
    | [] => [[]]
  (follow [] segments).flatMap fun segment =>
    0x2F :: percentEncode isPathByte (utf8Chars segment)

/-- The path and the query that a request to an address asks for. -/
def target (address : String) : String :=
  let s := (behindHost (clean address.toList)).takeWhile (· ≠ '#')
  let query := match s.dropWhile (· ≠ '?') with
    | [] => []
    | mark :: query => utf8Chars [mark] ++ percentEncode isQueryByte (utf8Chars query)
  ofUtf8Lossy (path (s.takeWhile (· ≠ '?')) ++ query)

end Roster.Http.Address
