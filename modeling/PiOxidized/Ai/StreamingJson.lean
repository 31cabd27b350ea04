/-
# Arguments that are still being written

The object that a text stands for when it may have been cut off anywhere: escapes that are not
valid are repaired, open strings and brackets are closed, and what still cannot be read loses its
last characters.
-/

import PiOxidized.Ai.Json
import PiOxidized.Math.Text

namespace PiOxidized.Ai

open Math

/-! ## Repair -/

def isAsciiHexdigit (c : Char) : Bool := c.isDigit || ('a' ≤ c && c ≤ 'f') || ('A' ≤ c && c ≤ 'F')

/-- The characters that may follow a backslash by themselves. -/
def simpleEscapes : List Char := ['"', '\\', '/', 'b', 'f', 'n', 'r', 't']

def hexDigit (n : Nat) : Char := Nat.digitChar n

/-- A character inside of a string, written so that it may stand there. -/
def escapeControl (c : Char) : List Char := match c.toNat with
  | 0x8 => ['\\', 'b']
  | 0xC => ['\\', 'f']
  | 0xA => ['\\', 'n']
  | 0xD => ['\\', 'r']
  | 0x9 => ['\\', 't']
  | code =>
    if code ≤ 0x1F then ['\\', 'u', '0', '0', hexDigit (code / 16), hexDigit (code % 16)]
    else [c]

/-- Repair the rest of a text that is inside of a string or not. -/
def repairFrom (inString : Bool) : List Char → List Char
  | [] => []
  | c :: rest =>
    if !inString then c :: repairFrom (c == '"') rest
    else if c == '"' then c :: repairFrom false rest
    else if c == '\\' then
      match rest with
      | [] => ['\\', '\\']
      | next :: more =>
        let simple := if simpleEscapes.contains next then '\\' :: next :: repairFrom true more
          else '\\' :: '\\' :: repairFrom true (next :: more)
        match more with
        | d₁ :: d₂ :: d₃ :: d₄ :: tail =>
          if next == 'u' && [d₁, d₂, d₃, d₄].all isAsciiHexdigit then
            '\\' :: 'u' :: d₁ :: d₂ :: d₃ :: d₄ :: repairFrom true tail
          else simple
        | _ => simple
    else escapeControl c ++ repairFrom true rest

def repairJson (input : List Char) : List Char := repairFrom false input

/-! ## Completion -/

/-- What is open behind some characters: the closing brackets that are missing, innermost first,
and whether the text ends in a string and there behind a backslash. -/
structure Completion where
  stack : List Char
  inString : Bool
  escaped : Bool
  deriving DecidableEq

def Completion.push (state : Completion) (c : Char) : Completion := if state.inString then
    if state.escaped then { state with escaped := false }
    else if c == '\\' then { state with escaped := true }
    else if c == '"' then { state with inString := false }
    else state
  else if c == '"' then { state with inString := true }
  else if c == '\x7b' then { state with stack := '\x7d' :: state.stack }
  else if c == '[' then { state with stack := ']' :: state.stack }
  else if (c == '\x7d' || c == ']') && state.stack.head? == some c then
    { state with stack := state.stack.tail }
  else state

def completeJson (input : List Char) : List Char :=
  let state := input.foldl Completion.push ⟨[], false, false⟩
  (if state.escaped then input.dropLast else input) ++
    (if state.inString then ['"'] else []) ++ state.stack

/-! ## Reading -/

variable (library : JsonLibrary)

/-- The object of the longest of the first prefixes that has one. -/
def parsePrefix (input : List Char) (length : Nat) : Option JsonMap :=
  match library.fromStr (completeJson (input.take length)), length with
  | some (.object members), _ => some members
  | _, 0 => none
  | _, length + 1 => parsePrefix input length

def parsePartialObject (input : List Char) : Option JsonMap :=
  parsePrefix library input input.length

/-- The object a text stands for; nothing that can be read is the empty object. -/
def parseStreamingJson (input : List Char) : JsonMap := let input := trim input
  if input.isEmpty then []
  else
    ((parsePartialObject library (repairJson input)).or (parsePartialObject library input)).getD []

end PiOxidized.Ai
