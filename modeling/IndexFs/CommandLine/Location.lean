import IndexFs.Report
import IndexFs.Url.Parser

/-!
# Locations

How a place in the index is given on the command line: as a URL, or in short as what would stand behind
the scheme and its slashes.
-/

namespace IndexFs.CommandLine

/-- Whether one text occurs in another. -/
def occursIn (part : List Char) : List Char → Bool
  | [] => part.isEmpty
  | c :: cs => part.isPrefixOf (c :: cs) || occursIn part cs

/-- The text of the URL that a location stands for. -/
def locationText (location scheme : String) : String :=
  if occursIn "://".toList location.toList then location
  else scheme ++ "://" ++ String.ofList (location.toList.dropWhile (· = '/'))

/-- Reads a location, with the scheme that stands for the index. -/
def readLocation (location scheme : String) : Except Report Url :=
  (Url.parse (locationText location scheme)).mapError fun e =>
    (Report.ofMessage e.message).context ("Invalid URI '" ++ location ++ "'")

end IndexFs.CommandLine
