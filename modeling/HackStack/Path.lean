/-!
# Paths

A path is a text of components divided by slashes. This module takes paths
apart and puts them together as texts, without looking at any file: the
base name, the directory in front of it, the name without its extension.
-/

namespace HackStack.Path

/-- The components of a path, empty ones included. -/
def components : List Char → List (List Char)
  | [] => [[]]
  | c :: cs =>
    if c == '/' then [] :: components cs
    else match components cs with
      | [] => [[c]]
      | w :: ws => (c :: w) :: ws

/-- The components of a path as names. -/
def names (path : String) : List String :=
  (components path.toList).map String.ofList

/-- Whether a path starts at the root. -/
def isAbsolute (path : String) : Bool := path.toList.head? == some '/'

/-- What stands after the last slash. -/
def baseName (path : String) : String :=
  String.ofList (path.toList.reverse.takeWhile (· != '/')).reverse

/-- What stands before the base name, without the slashes between them; the
root keeps its slashes. -/
def directory (path : String) : String :=
  let head := path.toList.reverse.dropWhile (· != '/')
  if head.all (· == '/') then String.ofList head
  else String.ofList (head.dropWhile (· == '/')).reverse

/-- A name without its extension, which starts at the last dot. Dots that a
name starts with open no extension. -/
def stem (name : String) : String :=
  match name.toList.reverse.dropWhile (· != '.') with
  | [] => name
  | _ :: before => if before.all (· == '.') then name else String.ofList before.reverse

/-- The name of the module in a file: its base name without the extension. -/
def moduleName (path : String) : String := stem (baseName path)

/-- A name inside a directory; the empty directory adds nothing. -/
def join (directory name : String) : String :=
  if isAbsolute name || directory.isEmpty then name
  else if directory.toList.getLast? == some '/' then directory ++ name
  else directory ++ "/" ++ name

/-- A path without the slashes and backslashes at its end, unless it has
nothing else. -/
def trimEnd (path : String) : String :=
  match path.toList.reverse.dropWhile fun c => c == '/' || c == '\\' with
  | [] => path
  | cs => String.ofList cs.reverse

/-- The place that components lead to from a place, by names alone: a dot
stays, two dots go up. -/
def follow (place : List String) (steps : List String) : List String :=
  steps.foldl (fun here name =>
    if name == "" || name == "." then here
    else if name == ".." then here.dropLast
    else here ++ [name]) place

/-- The place of a path, by names alone, seen from a directory. -/
def locate (workingDirectory : List String) (path : String) : List String :=
  follow (if isAbsolute path then [] else workingDirectory) (names path)

end HackStack.Path
