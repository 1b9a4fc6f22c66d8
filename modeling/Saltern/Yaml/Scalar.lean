import Saltern.Text.LowerCase
import Saltern.Text.Pattern

/-!
# Scalars in YAML

A text is written plain when a YAML 1.1 loader reads it back as that text, and in single quotes
otherwise.
-/

namespace Saltern.Yaml

/-- A text in single quotes; a quote inside is written twice. -/
def quote (t : Text) : Text := '\'' :: Text.replaceChar '\'' ['\'', '\''] t ++ ['\'']

/-- The characters that may open a plain scalar. -/
def isPlainStart (c : Char) : Bool := c.isAlphanum || ['_', '/', '.'].contains c

/-- The characters that may follow in a plain scalar. -/
def isPlainChar (c : Char) : Bool :=
  c.isAlphanum || ['_', ' ', '/', '.', ':', '@', '%', '+', '=', ',', '~', '-'].contains c

/-- Whether a text is made of plain characters only. -/
def isPlainText : Text → Bool
  | [] => false
  | c :: r => isPlainStart c && r.all isPlainChar

/-- Words that are read as truth values or as nothing, in any letter case. -/
def keywords : List Text :=
  ["y", "n", "yes", "no", "true", "false", "on", "off", "null", "~"]

def isKeyword (t : Text) : Bool := keywords.contains (Text.asciiLower t)

namespace Number

open Pattern

def digit : Pattern := .one Char.isDigit

def digitOrLow : Pattern := .one fun c ↦ c.isDigit || c == '_'

def sign : Pattern := opt (anyOf "-+")

/-- Digits that start with a digit and may be parted by underscores. -/
def digits : Pattern := .seq digit (.star digitOrLow)

/-- A fraction that ends in digits. -/
def fraction : Pattern := .seq (char '.') digits

/-- An integer or a fraction that ends in digits, with an exponent or without. -/
def decimal : Pattern :=
  chain [sign, .alt (.seq digits (opt fraction)) fraction,
    opt (chain [anyOf "eE", opt (anyOf "-+"), plus digit])]

def isHexDigit (c : Char) : Bool := c.isDigit || ('a' ≤ c && c ≤ 'f') || ('A' ≤ c && c ≤ 'F')

def hexadecimal : Pattern :=
  chain [sign, char '0', anyOf "xX", plus (.one fun c ↦ isHexDigit c || c == '_')]

def octal : Pattern :=
  chain [sign, char '0', opt (anyOf "oO"), plus (.one fun c ↦ ('0' ≤ c && c ≤ '7') || c == '_')]

def binary : Pattern := chain [sign, char '0', anyOf "bB", plus (anyOf "01_")]

/-- Places to the base sixty, parted by colons. -/
def sexagesimal : Pattern :=
  chain [sign, digits, plus (chain [char ':', opt (.one fun c ↦ '0' ≤ c && c ≤ '5'), digit]),
    opt (.seq (char '.') (.star digitOrLow))]

def infinity : Pattern :=
  chain [sign, char '.', choice [literal "inf", literal "Inf", literal "INF"]]

def notANumber : Pattern := .seq (char '.') (choice [literal "nan", literal "NaN", literal "NAN"])

/-- The texts that are read as numbers. -/
def any : Pattern :=
  choice [decimal, hexadecimal, octal, binary, sexagesimal, infinity, notANumber]

end Number

/-- Whether a text is written without quotes. -/
def isPlain (t : Text) : Bool :=
  isPlainText t && t.getLast? != some ' ' && t.getLast? != some ':' && !Text.holds ": " t &&
    !isKeyword t && !Number.any.accepts t

/-- A text as a YAML scalar. -/
def scalar (t : Text) : Text := if isPlain t then t else quote t

end Saltern.Yaml
