import LedgerWire.Text.Ascii

/-!
Strings as TOML text. A string is written in the plainest of five styles that can hold it.
-/

namespace LedgerWire.Toml

inductive Style
  | basic
  | literal
  | basicLines
  | literalLines
  deriving DecidableEq, Repr

def needsEscape (value : Char) : Bool :=
  (value.toNat < 0x20 && value ≠ '\t' && value ≠ '\n') || value.toNat = 0x7F

def longestRun (wanted : Char) (run : Nat) : List Char → Nat
  | [] => run
  | value :: rest =>
    if value = wanted then longestRun wanted (run + 1) rest
    else max run (longestRun wanted 0 rest)

/-- Basic strings without escapes come first, then literal strings; a string of several lines may
hold two quotation marks in a row. Where nothing else will do, a basic string holds escapes. -/
def styleOf (text : List Char) : Style :=
  let control := text.any needsEscape
  let backslash := text.any (· = '\\')
  let lines := text.any (· = '\n')
  let doubles := longestRun '"' 0 text
  let singles := longestRun '\'' 0 text
  if !control && !backslash && !lines && doubles = 0 then .basic
  else if !control && !lines && singles = 0 then .literal
  else if !control && !backslash && doubles ≤ 2 then .basicLines
  else if !control && singles ≤ 2 then .literalLines
  else if lines then .basicLines
  else .basic

def hexDigit (value : Nat) : Char := Char.ofNat (if value < 10 then 0x30 + value else 0x37 + value)

def codeEscape (value : Char) : List Char :=
  ['\\', 'u', '0', '0', hexDigit (value.toNat / 16), hexDigit (value.toNat % 16)]

/-- A basic string; `allowed` quotation marks in a row stand for themselves, of which `run` come
right before, and line breaks do if `lines` holds. -/
def escapeBasic (allowed : Nat) (lines : Bool) (run : Nat) : List Char → List Char
  | [] => []
  | value :: rest =>
    if value = '"' then
      if run < allowed then '"' :: escapeBasic allowed lines (run + 1) rest
      else '\\' :: '"' :: escapeBasic allowed lines 0 rest
    else if value = '\x08' then '\\' :: 'b' :: escapeBasic allowed lines 0 rest
    else if value = '\t' then '\\' :: 't' :: escapeBasic allowed lines 0 rest
    else if value = '\n' && !lines then '\\' :: 'n' :: escapeBasic allowed lines 0 rest
    else if value = '\x0c' then '\\' :: 'f' :: escapeBasic allowed lines 0 rest
    else if value = '\r' then '\\' :: 'r' :: escapeBasic allowed lines 0 rest
    else if value = '\\' then '\\' :: '\\' :: escapeBasic allowed lines 0 rest
    else if needsEscape value then codeEscape value ++ escapeBasic allowed lines 0 rest
    else value :: escapeBasic allowed lines 0 rest

def firstBreak (text : List Char) : List Char := if text.any (· = '\n') then ['\n'] else []

def writeChars (text : List Char) : List Char :=
  match styleOf text with
  | .basic => '"' :: escapeBasic 0 false 0 text ++ ['"']
  | .literal => '\'' :: text ++ ['\'']
  | .basicLines => ['"', '"', '"'] ++ firstBreak text ++ escapeBasic 2 true 0 text ++ ['"', '"', '"']
  | .literalLines => ['\'', '\'', '\''] ++ firstBreak text ++ text ++ ['\'', '\'', '\'']

def writeString (text : String) : String := String.ofList (writeChars text.toList)

def writeEntry (key text : String) : String := key ++ " = " ++ writeString text ++ "\n"

end LedgerWire.Toml
