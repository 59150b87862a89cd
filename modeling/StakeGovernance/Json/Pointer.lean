import StakeGovernance.Json.Tidy
import StakeGovernance.Text.Decimal

/-!
# Pointers into JSON values

A pointer is a path of keys and indices, written with a slash before each of them. It
names one place in a value, and that place can be given another value.

* `StakeGovernance.Json.pointerTokens` – the **steps** of a pointer;
* `StakeGovernance.Json.replace?` – the value with another one **at a place**, in its
  tidy form.
-/

namespace StakeGovernance.Json

/-- Resolves the two escapes of a step: `~1` is a slash and `~0` a tilde. -/
def unescapeToken : List Char → List Char
  | '~' :: '1' :: cs => '/' :: unescapeToken cs
  | '~' :: '0' :: cs => '~' :: unescapeToken cs
  | c :: cs => c :: unescapeToken cs
  | [] => []

/-- **The steps of a pointer**, if it is one: the empty text, or a text that starts
with a slash. -/
def pointerTokens (path : String) : Option (List String) :=
  match path.splitOn "/" with
  | [""] => some []
  | "" :: tokens => some (tokens.map fun t => String.ofList (unescapeToken t.toList))
  | _ => none

/-- The index that a step stands for: digits without a leading zero. -/
def tokenIndex? (token : String) : Option Nat :=
  match token.toList with
  | ['0'] => some 0
  | '0' :: _ => none
  | cs => Decimal.ofDigits? cs

/-- Puts a value at the first field of that name. -/
def replaceField (name : String) (f : Json → Option Json) :
    List (String × Json) → Option (List (String × Json))
  | [] => none
  | (k, v) :: fs =>
    if k = name then (f v).map fun v => (k, v) :: fs
    else (replaceField name f fs).map ((k, v) :: ·)

/-- Puts a value at the item of that index. -/
def replaceItem (index : Nat) (f : Json → Option Json) : List Json → Option (List Json)
  | [] => none
  | x :: xs =>
    match index with
    | 0 => (f x).map (· :: xs)
    | index + 1 => (replaceItem index f xs).map (x :: ·)

/-- The value with another one at the end of a path, if the path leads somewhere. -/
def replaceAt (value : Json) : List String → Json → Option Json
  | [], _ => some value
  | t :: ts, .object fields => (replaceField t (replaceAt value ts) fields).map .object
  | t :: ts, .array items =>
    (tokenIndex? t).bind fun i => (replaceItem i (replaceAt value ts) items).map .array
  | _ :: _, _ => none

/-- **The value with another one at the place that a pointer names**, in its tidy form. -/
def replace? (target : Json) (path : String) (value : Json) : Option Json :=
  (pointerTokens path).bind fun tokens => (replaceAt value tokens target).map tidy

end StakeGovernance.Json
