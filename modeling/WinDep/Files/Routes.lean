/-
# Routes of the file API

The router looks at the path of a request without its trailing slashes and
without regard to the case of letters. A route hands the handler the parts that
its parameters stand for, as they were sent: nothing is decoded, and letters keep
their case.
-/

import WinDep.Files.Handlers
import Mathlib.Data.List.DropRight

namespace WinDep.Routes

open Admin

inductive Method
  | get
  | head
  | put
  | patch
  | post
  | delete
  | other
  deriving DecidableEq

/-- A request to the admin: its path as sent, the query of a listing, the headers that are read,
the body, and the IVs that are drawn while it is handled. -/
structure HttpRequest where
  method : Method
  path : String
  queryCategory : String
  queryPrefix : String
  authorization : String
  ip : String
  contentLength : ℤ
  uploadLength : List Char
  uploadOffset : List Char
  body : Stream
  ivs : String → IV

/-- The path without trailing slashes, which the router looks at. -/
def trimmed (path : String) : List Char :=
  if 1 < path.toList.length then path.toList.rdropWhile (· = '/') else path.toList

/-- What follows a constant part, if the path begins with it in any case. -/
def afterConst (const : String) (path : List Char) : Option (List Char) :=
  if const.toList <+: path.map Char.toLower then some (path.drop const.toList.length) else none

/-- `:category/*`. The category is not empty; the wildcard may be, with the slash before it. -/
def categoryAndRest (path : List Char) : Option (String × String) :=
  let category := path.takeWhile (· ≠ '/')
  if category = [] then none
  else some (String.ofList category, String.ofList ((path.dropWhile (· ≠ '/')).drop 1))

/-- Match a route `const:category/*`. -/
def matchCategory (const path : String) : Option (String × String) :=
  (afterConst const (trimmed path)).bind categoryAndRest

/-- Match a route `const/*`. -/
def matchRest (const path : String) : Option String :=
  if (trimmed path).map Char.toLower = const.toList then some ""
  else (afterConst (const ++ "/") (trimmed path)).map String.ofList

/-- Match a route without parameters. -/
def matchExact (const path : String) : Bool := (trimmed path).map Char.toLower = const.toList

/-- The handlers that work on the deploy tree, with the parameters of their routes. -/
inductive Route
  | upload (category rel : String)
  | resume (category rel : String)
  | delete (category rel : String)
  | mkdir (category rel : String)
  | configPut (rel : String)
  | offset (category rel : String)
  | list
  | download (category rel : String)
  | wimInfo (category rel : String)
  | verify (category rel : String)
  /-- a handler that only reads, or none -/
  | elsewhere
  deriving DecidableEq

def filesConst : String := "/api/files/"

def foldersConst : String := "/api/folders/"

def downloadConst : String := "/api/download/"

def wimInfoConst : String := "/api/wiminfo/"

def verifyConst : String := "/api/verify/"

/-- The route a request takes. -/
def route (method : Method) (path : String) : Route :=
  match method with
  | .put =>
    match matchCategory filesConst path with
    | some (category, rel) => .upload category rel
    | none =>
      match matchRest "/api/config" path with
      | some rel => .configPut rel
      | none => .elsewhere
  | .patch =>
    match matchCategory filesConst path with
    | some (category, rel) => .resume category rel
    | none => .elsewhere
  | .delete =>
    match matchCategory filesConst path with
    | some (category, rel) => .delete category rel
    | none => .elsewhere
  | .post =>
    match matchCategory foldersConst path with
    | some (category, rel) => .mkdir category rel
    | none =>
      match matchCategory verifyConst path with
      | some (category, rel) => .verify category rel
      | none => .elsewhere
  | .head =>
    -- a route for GET answers HEAD too, but the offset has a route of its own
    if matchExact "/api/files" path then .list
    else
      match matchCategory filesConst path with
      | some (category, rel) => .offset category rel
      | none =>
        match matchCategory downloadConst path with
        | some (category, rel) => .download category rel
        | none =>
          match matchCategory wimInfoConst path with
          | some (category, rel) => .wimInfo category rel
          | none => .elsewhere
  | .get =>
    if matchExact "/api/files" path then .list
    else
      match matchCategory downloadConst path with
      | some (category, rel) => .download category rel
      | none =>
        match matchCategory wimInfoConst path with
        | some (category, rel) => .wimInfo category rel
        | none => .elsewhere
  | .other => .elsewhere

/-- `c.Params("category")` and `c.Params("*")` of the route. -/
def Route.params : Route → String × String
  | upload category rel => (category, rel)
  | resume category rel => (category, rel)
  | delete category rel => (category, rel)
  | mkdir category rel => (category, rel)
  | configPut rel => ("", rel)
  | offset category rel => (category, rel)
  | list => ("", "")
  | download category rel => (category, rel)
  | wimInfo category rel => (category, rel)
  | verify category rel => (category, rel)
  | elsewhere => ("", "")

end WinDep.Routes
