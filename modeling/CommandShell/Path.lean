import CommandShell.Text.Blank
/-!
# File paths

Paths are texts with `/` between their components.  `join` puts a path behind a directory, unless
the path is absolute: then it stands alone.  `expandTilde` reads a leading `~` as the home
directory.

    expandTilde (some home) ['~'] = home
-/

namespace CommandShell.Path

open CommandShell.Text

/-- Whether the path starts at the root. -/
def isAbsolute (path : List Char) : Bool := path.head? = some '/'

/-- The path behind the directory, with one separator between them. -/
def join (directory path : List Char) : List Char :=
  if isAbsolute path then path
  else if directory.getLast?.all (· = '/') then directory ++ path
  else directory ++ '/' :: path

/-- The trimmed path with a leading `~` replaced by the home directory, if there is one.  A name
behind the `~` is left alone. -/
def expandTilde (home : Option (List Char)) (path : List Char) : List Char :=
  match trim path, home with
  | ['~'], some home => home
  | '~' :: '/' :: rest, some home => join home rest
  | '~' :: '\\' :: rest, some home => join home rest
  | trimmed, _ => trimmed

end CommandShell.Path
