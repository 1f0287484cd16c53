import IndexFs.Channel.Error
import IndexFs.Decimal.Natural
import IndexFs.Json.Printer
import IndexFs.Json.Reader
import IndexFs.Text.Blank

/-!
# Frames

A message travels as a frame: header lines, of which `Content-Length` gives the number of bytes of the
body, a blank line, and the body, a JSON text. `Frame.read` looks at the bytes that have arrived and takes
the first frame off them, or says what is wrong, or that more bytes are needed; what it answers does not
depend on the pieces in which the bytes arrived.
-/

namespace IndexFs

/-- What comes after the bytes that have arrived. -/
inductive Ending where
  /-- More bytes may arrive. -/
  | unknown
  /-- The stream ends here. -/
  | closed
  /-- The stream fails here. -/
  | failed (message : String)
deriving DecidableEq, Repr

namespace Frame

/-- The greatest body that is accepted. -/
def maxBody : Nat := 64 * 1024 * 1024

/-! ## Writing -/

def header (length : Nat) : List Char :=
  "Content-Length: ".toList ++ Decimal.digitChars length ++ ['\r', '\n', '\r', '\n']

/-- The frame of a message. -/
def bytes (message : Json) : List UInt8 :=
  let body := message.bytes
  Utf8.encode (header body.length) ++ body

/-! ## Reading -/

/-- The result of reading one frame. -/
inductive Outcome where
  /-- A message, and the bytes after its frame. -/
  | message (v : Json) (rest : List UInt8)
  /-- The stream ends between frames. -/
  | finished
  /-- The bytes are no frame; `rest` was not looked at. -/
  | fault (e : ChannelError) (rest : List UInt8)
  /-- The stream fails before the frame is complete. -/
  | failed (message : String)
  /-- The frame is not complete. -/
  | pending

/-- The header lines so far: the latest length, and whether there was any line. -/
structure Header where
  length : Option Nat
  seen : Bool

def Header.empty : Header := ⟨none, false⟩

/-- What a line means. -/
inductive Line where
  /-- A line of line ends only. -/
  | blank
  | other
  | length (n : Nat)

/-- Whether a header has the given name, whatever its case. -/
def isName (expected : String) (name : List Char) : Bool :=
  Text.lower (Text.trim name) = expected.toList

/-- Reads a line with its line end. -/
def readLine (line : List UInt8) : Except ChannelError Line :=
  match Utf8.decode line with
  | .error f => .error (.io f.message)
  | .ok cs =>
    let text := (cs.reverse.dropWhile fun c => c = '\r' || c = '\n').reverse
    if text.isEmpty then .ok .blank
    else
      match text.dropWhile (· ≠ ':') with
      | [] => .ok .other
      | _ :: value =>
        if isName "content-length" (text.takeWhile (· ≠ ':')) then
          let value := Text.trim value
          match Decimal.natural value with
          | .ok n => .ok (.length n)
          | .error flaw =>
            .error (.protocol
              ("invalid Content-Length '" ++ String.ofList value ++ "': " ++ flaw.message))
        else .ok .other

/-- Takes the body of a frame off the bytes after its header. -/
def readBody (ending : Ending) (length : Nat) (bs : List UInt8) : Outcome :=
  if maxBody < length then
    .fault (.protocol s!"message of {length} bytes exceeds the {maxBody} byte limit") bs
  else if length ≤ bs.length then
    match Json.parse (bs.take length) with
    | .ok v => .message v (bs.drop length)
    | .error f => .fault (.protocol f.message) (bs.drop length)
  else
    match ending with
    | .unknown => .pending
    | .closed =>
      .fault (.protocol s!"unexpected end of stream after {bs.length} of {length} body bytes") []
    | .failed m => .failed m

/-- Goes on after the blank line that ends the header. -/
def endHeader (ending : Ending) (h : Header) (bs : List UInt8) : Outcome :=
  match h.length with
  | none => .fault (.protocol "missing Content-Length header") bs
  | some n => readBody ending n bs

def endInHeader : Outcome :=
  .fault (.protocol "unexpected end of stream in headers") []

/-- The end of the bytes, inside the header; `line` is the start of a line, its latest byte first. A
closed stream ends its last line. -/
def stopInHeader (ending : Ending) (h : Header) (line : List UInt8) : Outcome :=
  match ending with
  | .unknown => .pending
  | .failed m => .failed m
  | .closed =>
    if line.isEmpty then
      if h.seen then endInHeader else .finished
    else
      match readLine line.reverse with
      | .error e => .fault e []
      | .ok .blank => if h.seen then endHeader ending h [] else .finished
      | .ok _ => endInHeader

/-- Reads header lines, and then the body; `line` is the start of the current line, its latest byte
first. Blank lines in front of the first header line are passed over. -/
def readHeader (ending : Ending) (h : Header) (line : List UInt8) : List UInt8 → Outcome
  | [] => stopInHeader ending h line
  | b :: bs =>
    if b = 0x0A then
      match readLine (b :: line).reverse with
      | .error e => .fault e bs
      | .ok .blank => if h.seen then endHeader ending h bs else readHeader ending h [] bs
      | .ok .other => readHeader ending { h with seen := true } [] bs
      | .ok (.length n) => readHeader ending ⟨some n, true⟩ [] bs
    else readHeader ending h (b :: line) bs

/-- Takes the first frame off the bytes that have arrived. -/
def read (ending : Ending) (bs : List UInt8) : Outcome :=
  readHeader ending .empty [] bs

/-! ## Streams -/

/-- What one read from a stream gives. -/
inductive Chunk where
  | bytes (bs : List UInt8)
  | failure (message : String)

/-- The bytes that arrive up to the end of the stream or its first failure. -/
def arriving : List Chunk → List UInt8
  | [] => []
  | .bytes bs :: chunks => bs ++ arriving chunks
  | .failure _ :: _ => []

/-- Takes the first frame off a stream, of which `buffer` has arrived. One chunk after the other is read
until the frame is complete, and none after that. -/
def readNext (buffer : List UInt8) : List Chunk → Outcome × List Chunk
  | [] => (read .closed buffer, [])
  | chunk :: chunks =>
    match read .unknown buffer with
    | .pending =>
      match chunk with
      | .bytes bs => readNext (buffer ++ bs) chunks
      | .failure m => (read (.failed m) buffer, chunks)
    | outcome => (outcome, chunk :: chunks)

/-- How the reading of a stream comes to its end. -/
inductive Conclusion where
  /-- The stream ends between frames. -/
  | clean
  | error (e : ChannelError)
  /-- It has not come to its end. -/
  | unfinished
deriving DecidableEq, Repr

/-- The messages of a stream, how it ended, and the bytes that were not read. -/
structure Reading where
  messages : List Json
  conclusion : Conclusion
  unread : List UInt8

/-- Reads frames until the end or an error. Each step takes at least one of `fuel` bytes. -/
def readFrames (buffer : List UInt8) (chunks : List Chunk) : Nat → Reading
  | 0 => ⟨[], .unfinished, buffer ++ arriving chunks⟩
  | fuel + 1 =>
    match readNext buffer chunks with
    | (.message v rest, later) =>
      let reading := readFrames rest later fuel
      { reading with messages := v :: reading.messages }
    | (.finished, later) => ⟨[], .clean, arriving later⟩
    | (.pending, later) => ⟨[], .unfinished, arriving later⟩
    | (.fault e rest, later) => ⟨[], .error e, rest ++ arriving later⟩
    | (.failed m, later) => ⟨[], .error (.io m), arriving later⟩

/-- Reads a stream that gives the chunks one after the other. -/
def readStream (chunks : List Chunk) : Reading :=
  readFrames [] chunks ((arriving chunks).length + 1)

/-! ## Writers -/

/-- A stream that is written to. If it is going to fail, it accepts a number of bytes before, and then
gives the message. -/
structure Writer where
  limit : Option (Nat × String)

/-- A stream that takes everything. -/
def Writer.unlimited : Writer := ⟨none⟩

/-- Writes bytes: those that were accepted, the result, and the stream afterwards. -/
def Writer.write (w : Writer) (bs : List UInt8) :
    List UInt8 × Except ChannelError Unit × Writer :=
  match w.limit with
  | none => (bs, .ok (), w)
  | some (left, m) =>
    if bs.length ≤ left then (bs, .ok (), ⟨some (left - bs.length, m)⟩)
    else (bs.take left, .error (.io m), ⟨some (0, m)⟩)

/-- Writes one frame after the other, whatever became of those before. -/
def writeFrames (w : Writer) : List Json → List (List UInt8 × Except ChannelError Unit)
  | [] => []
  | v :: vs =>
    let (bs, result, w) := w.write (bytes v)
    (bs, result) :: writeFrames w vs

end Frame

end IndexFs
