import CommandShell.Parse.Resolution
/-!
# The strategy with names

A word that is the long name of a parameter takes the next word, unless that is a name too; all
other words are leftovers.

    copy from a.txt to b.txt
-/

namespace CommandShell

/-- The parameter with that long name. -/
def parameterNamed? (ps : List Parameter) (word : String) : Option Parameter :=
  ps.find? fun p => p.long = some word

/-- Takes the words of a line apart, adding to what was found before them. -/
def extractNames (ps : List Parameter) (e : Extraction) : List String → Extraction
  | [] => e
  | word :: rest =>
    match parameterNamed? ps word with
    | none => extractNames ps (e.withLeftover word) rest
    | some p =>
      if p.joint then e.withFlag word (.text (Line.joined rest))
      else match rest with
        | [] => e.withFlag word .present
        | next :: more =>
          if (parameterNamed? ps next).isNone then
            extractNames ps (e.withFlag word (.text next)) more
          else extractNames ps (e.withFlag word .present) (next :: more)

/-- What a line gives for names, and its leftovers. -/
def nameExtraction (ps : List Parameter) (raw : String) : Extraction :=
  extractNames ps .empty (Line.arguments raw)

namespace Strategy

/-- The strategy with names. -/
def names : Strategy where
  mismatch := flagMismatch
  parse ps raw ctx := resolve ps (nameExtraction ps raw) .names ctx []

end Strategy

end CommandShell
