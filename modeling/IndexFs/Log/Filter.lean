import IndexFs.Decimal.Natural
import IndexFs.Log.Basic
import IndexFs.Text.Alphanumeric
import IndexFs.Text.Blank
import IndexFs.Utf8

/-!
# Log filters

A filter is a list of directives between commas. A directive gives a threshold for all lines, or for
those whose target starts with a text, as in `warn,lsif_fs=debug`; it may also ask for a span and for
fields, in brackets and braces. Of the directives that fit a line the most specific one decides.
-/

namespace IndexFs.Log

/-- A field that a directive asks for. -/
structure Field where
  name : String
  /-- Whether it must have a certain value. -/
  hasValue : Bool
deriving DecidableEq, Repr

structure Directive where
  /-- The greatest rank of a level that passes. -/
  threshold : Nat
  target : Option String
  span : Option String
  fields : List Field
deriving DecidableEq, Repr

/-- The threshold that lets everything pass. -/
def everything : Nat := 5

/-- The names of thresholds. The empty one lets errors pass. -/
def thresholdNames : List (String × Nat) :=
  [("", 1), ("error", 1), ("warn", 2), ("info", 3), ("debug", 4), ("trace", 5), ("off", 0)]

/-- Reads a threshold: its number, or its name in any case. -/
def threshold? (text : List Char) : Option Nat :=
  match Decimal.natural text with
  | .ok n => if n ≤ everything then some n else none
  | .error _ => thresholdNames.lookup (String.ofList (Text.lower text))

/-! ## Directives -/

/-- The part of a directive that is being read, and where it starts. -/
inductive Part where
  | start
  /-- A level or a target. -/
  | word (start : Nat)
  | span (start : Nat)
  | field (start : Nat)
  /-- After the fields. -/
  | fields
  /-- After the brackets. -/
  | target
  | level (start : Nat)
deriving DecidableEq

/-- The bytes of a text between two places. A piece of a character is no text. -/
def slice (bytes : List UInt8) (start stop : Nat) : Option String :=
  Utf8.toString? ((bytes.take stop).drop start)

/-- The field of a text such as `name` or `name=value`. -/
def Field.read? (text : String) : Option Field :=
  if text = "" then none
  else
    let cs := text.toList
    some ⟨String.ofList (cs.takeWhile (· ≠ '=')), cs.contains '='⟩

/-- Reads the character at the place `i`. -/
def Directive.scan (bytes : List UInt8) (i : Nat) (c : Char) (part : Part) (d : Directive) :
    Option (Part × Directive) :=
  match part with
  | .start =>
    if c = '[' then some (.span (i + 1), d)
    else if c = '-' || c = ':' || c = '_' || Text.isAlphanumeric c then some (.word i, d)
    else none
  | .word start =>
    if c = '=' then
      (slice bytes start i).map fun t => (.level (i + 1), { d with target := some t })
    else if c = '[' then
      (slice bytes start i).map fun t => (.span (i + 1), { d with target := some t })
    else some (.word start, d)
  | .span start =>
    if c = ']' then
      (slice bytes start i).map fun t => (.target, { d with span := some t })
    else if c = '{' then
      (slice bytes start i).map fun t =>
        (.field (i + 1), { d with span := if t = "" then none else some t })
    else some (.span start, d)
  | .field start =>
    if c = '}' then
      ((slice bytes start i).bind Field.read?).map fun f =>
        (.fields, { d with fields := d.fields ++ [f] })
    else some (.field start, d)
  | .fields => if c = ']' then some (.target, d) else none
  | .target => if c = '=' then some (.level (i + 1), d) else none
  | .level start => some (.level start, d)

/-- Reads the characters from the place `i` on. -/
def Directive.scanAll (bytes : List UInt8) (i : Nat) (part : Part) (d : Directive) :
    List Char → Option (Part × Directive)
  | [] => some (part, d)
  | c :: cs =>
    match Directive.scan bytes i c part d with
    | none => none
    | some (part, d) => Directive.scanAll bytes (i + (Utf8.encodeChar c).length) part d cs

/-- Ends a directive. A word that is no level is a target, and a target without a level lets everything
pass. -/
def Directive.finish (bytes : List UInt8) (part : Part) (d : Directive) : Option Directive :=
  match part with
  | .word start =>
    (slice bytes start bytes.length).map fun t =>
      match threshold? t.toList with
      | some n => { d with threshold := n }
      | none => { d with target := some t }
  | .level start =>
    (slice bytes start bytes.length).bind fun t =>
      if t = "" then some d else (threshold? t.toList).map fun n => { d with threshold := n }
  | .target => some d
  | _ => none

/-- Reads a directive. Blanks around it are passed over when its parts are looked for, but the parts are
cut out of the text as it stands, so that a blank in front of it shifts them. -/
def Directive.read? (text : List Char) : Option Directive :=
  let bytes := Utf8.encode text
  match Directive.scanAll bytes 0 .start ⟨everything, none, none, []⟩ (Text.trim text) with
  | none => none
  | some (part, d) => d.finish bytes part

/-- Whether a line can fit the directive: lines stand in no span, and no line has a field of a given
value. -/
def Directive.isForLines (d : Directive) : Bool :=
  d.span.isNone && d.fields.all fun f => !f.hasValue

/-! ## Filters -/

structure Filter where
  directives : List Directive
deriving DecidableEq, Repr

/-- The directives of a text; empty ones are left out. -/
def Filter.texts (text : String) : List (List Char) :=
  ((text.splitOn ",").map String.toList).filter fun t => !t.isEmpty

/-- Reads a filter. Directives that ask for fields come after all others. -/
def Filter.read? (text : String) : Option Filter :=
  ((Filter.texts text).mapM Directive.read?).map fun ds =>
    let forLines := ds.filter Directive.isForLines
    ⟨forLines.filter (fun d => d.fields.isEmpty) ++ forLines.filter fun d => !d.fields.isEmpty⟩

/-- The fields of every line. -/
def lineFields : List String :=
  ["message"]

/-- Whether a directive says something about lines of a target. -/
def Directive.fits (d : Directive) (target : String) : Bool :=
  (match d.target with
    | none => true
    | some t => target.startsWith t) &&
  d.fields.all fun f => lineFields.contains f.name

/-- How specific a directive is: first by the length of its target, then by the number of its fields. -/
def Directive.weight (d : Directive) : Nat × Nat :=
  ((d.target.map fun t => t.utf8ByteSize + 1).getD 0, d.fields.length)

/-- Whether one directive decides in front of another that was given earlier. -/
def Directive.outweighs (d earlier : Directive) : Bool :=
  earlier.weight.1 < d.weight.1 ||
    (earlier.weight.1 = d.weight.1 && earlier.weight.2 ≤ d.weight.2)

/-- The directive that decides about lines of a target. -/
def Filter.decisive? (f : Filter) (target : String) : Option Directive :=
  (f.directives.filter fun d => d.fits target).foldl (fun best d =>
    match best with
    | none => some d
    | some b => if d.outweighs b then some d else best) none

/-- Whether lines of a level and a target pass. -/
def Filter.passes (f : Filter) (level : Level) (target : String) : Bool :=
  match f.decisive? target with
  | none => false
  | some d => level.rank ≤ d.threshold

/-- The filter that is used when no other one can be read. -/
def Filter.default : Filter :=
  ⟨[⟨3, none, none, []⟩]⟩

/-- The filter of the surroundings if there is one that can be read, and else the one that is
configured. -/
def Filter.choose (surroundings : Option String) (configured : String) : Filter :=
  ((surroundings.bind Filter.read?).orElse fun _ => Filter.read? configured).getD .default

end IndexFs.Log
