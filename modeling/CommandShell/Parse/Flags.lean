import CommandShell.Literal.Scalar
import CommandShell.Parse.Resolution
/-!
# The strategy with flags

Words that look like flags name parameters; all other words are leftovers, except those that a
flag takes as its value.

    -abc            the letters a, b and c, each without a value
    --name value    the next word, unless it looks like a flag
    --name=value    the text behind the equals sign
    --joint a b c   all words to the end of the line

A flag of a truth value takes the next word only if that is a truth value.
-/

namespace CommandShell

open CommandShell.Literal

/-- How a word of the line is read. -/
inductive FlagWord where
  | leftover
  | ignored
  | inline (name value : String)
  | bundle (letters : List Char)
  | joint (name : String)
  | flag (name : String) (type : ValueType)
  deriving DecidableEq

namespace FlagWord

/-- The parameter with that letter. -/
def letter? (ps : List Parameter) (c : Char) : Option Parameter := ps.find? fun p => p.short = some c

/-- Whether a name is a run of letters.  A long name is none; a single letter is one only if it
is of a truth value, so that other letters can take a value. -/
def isBundle (ps : List Parameter) (name : List Char) : Bool :=
  if ps.any fun p => p.long = some (String.ofList name) then false
  else match name with
    | [] => false
    | [c] => (letter? ps c).any fun p => p.type = .bool
    | letters => letters.all fun c => (letter? ps c).isSome

/-- The name and the value of a flag with an equals sign behind its name. -/
def inline? (name : List Char) : Option (String × String) :=
  match Text.cutAt '=' name with
  | some (key, value) =>
    if key.isEmpty then none else some (String.ofList key, String.ofList value)
  | none => none

/-- Reads a word. -/
def ofWord (ps : List Parameter) (word : String) : FlagWord :=
  if looksLikeFlag word.toList then
    let name := flagName word.toList
    if name.isEmpty then ignored
    else match inline? name with
      | some (key, value) => inline key value
      | none =>
        if isBundle ps name then bundle name
        else match Parameter.find? ps (String.ofList name) with
          | none => ignored
          | some p => if p.joint then joint (String.ofList name) else flag (String.ofList name) p.type
  else leftover

/-- Whether a flag of the type takes the word behind it. -/
def takes (type : ValueType) (word : String) : Bool :=
  if type = .bool then (readBool? word.toList).isSome else !looksLikeFlag word.toList

end FlagWord

/-- Takes the words of a line apart, adding to what was found before them. -/
def extractFlags (ps : List Parameter) (e : Extraction) : List String → Extraction
  | [] => e
  | word :: rest =>
    match FlagWord.ofWord ps word with
    | .leftover => extractFlags ps (e.withLeftover word) rest
    | .ignored => extractFlags ps e rest
    | .inline name value => extractFlags ps (e.withFlag name (.text value)) rest
    | .bundle letters =>
      extractFlags ps
        (letters.foldl (fun e c => e.withFlag (String.ofList [c]) .present) e) rest
    | .joint name => e.withFlag name (.text (Line.joined rest))
    | .flag name type =>
      match rest with
      | [] => e.withFlag name .present
      | next :: more =>
        if FlagWord.takes type next then extractFlags ps (e.withFlag name (.text next)) more
        else extractFlags ps (e.withFlag name .present) (next :: more)

/-- What a line gives for flags, and its leftovers. -/
def flagExtraction (ps : List Parameter) (raw : String) : Extraction :=
  extractFlags ps .empty (Line.arguments raw)

namespace Strategy

/-- The strategy with flags. -/
def flags : Strategy where
  mismatch := flagMismatch
  parse ps raw ctx := resolve ps (flagExtraction ps raw) .flags ctx []

end Strategy

end CommandShell
