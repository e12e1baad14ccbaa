import Gwsdb.Lib.JsCase
import Gwsdb.Lib.Regex

/-!
# Hostnames of servers

`public/static/geo.js`: the patterns of the hostnames, `decode`, `isHostname` and `siblingHostname`. The tables of places,
`airportCodes` and `regionalCodes`, are arguments, and so are the data of `toLowerCase`.
-/

namespace Gwsdb.Web.Geo

open Digits
open JsNumber (trim natural)
open JsCase (CaseData)

/-- A text. -/
abbrev Text := List Char

/-! ## Patterns -/

/-- `[a-z]`. -/
def isLetter (c : Char) : Bool := 'a' ≤ c && c ≤ 'z'

/-- `\d`. -/
def isDecimal (c : Char) : Bool := '0' ≤ c && c ≤ '9'

/-- `[0-9a-f]`. -/
def isHex (c : Char) : Bool := isDecimal c || ('a' ≤ c && c ≤ 'f')

/-- `.`, every character that ends no line. -/
def isDot (c : Char) : Bool := c ≠ '\n' && c ≠ '\r' && c ≠ '\u2028' && c ≠ '\u2029'

/-- `(?:f(\d{1,3})|x([0-9a-f]{2}))`, the groups from a number on. -/
def marker (k : Nat) : Regex :=
  .alt (.text "f".toList ++ .group k (.many isDecimal 1 (some 3))) (.text "x".toList ++ .group (k + 1) (.many isHex 2 (some 2)))

/-- `\.1e100\.net\.?`. -/
def domain : Regex := .text ".1e100.net".toList ++ .opt (.text ".".toList)

/-- A code, two digits, `s` and two digits. -/
def head1 : Regex :=
  .group 1 (.many isLetter 3 (some 3)) ++ .group 2 (.many isDecimal 2 (some 2)) ++ .text "s".toList ++
    .group 3 (.many isDecimal 2 (some 2))

/-- `pattern1`. -/
def pattern1 : Regex := head1 ++ .text "-in-".toList ++ marker 4 ++ domain

/-- A regional code. -/
def head2 : Regex := .group 1 (.many isLetter 2 (some 2))

/-- `pattern2`. -/
def pattern2 : Regex := head2 ++ .text "-in-".toList ++ marker 2 ++ domain

/-- A metro prefix, a code, a tag of the server and the tag of a cluster. -/
def head3 : Regex :=
  .group 1 (.many isLetter 2 (some 2)) ++ .group 2 (.many isLetter 3 (some 3)) ++ .group 3 (.many isLetter 1 (some 3)) ++
    .opt (.text "-".toList ++ .group 4 (.many (fun c => isLetter c || isDecimal c) 1 none))

/-- `pattern3`. -/
def pattern3 : Regex := head3 ++ .text "-in-".toList ++ marker 5 ++ domain

/-- `pattern4`. -/
def pattern4 : Regex := .text "any-in-".toList ++ .group 1 (.many isHex 2 (some 6)) ++ domain

/-- `siblingPattern`. -/
def siblingPattern : Regex := .group 1 (.many isDot 1 none ++ .text "-in-".toList) ++ marker 2 ++ .group 4 domain

/-- What a group captured, nothing if it took no part. -/
def captured (m : Regex.Groups) (k : Nat) : Text := (m.lookup k).getD []

/-! ## Decoding -/

/-- A place of the tables. -/
structure Place where
  city : Text
  country : Text

/-- `Location`. -/
structure Location where
  hostname : Text
  airportCode : Text
  cluster : Text
  serverIndex : Text
  city : Text
  country : Text
  matched : Bool

/-- `emptyLocation`. -/
def emptyLocation (hostname : Text) : Location where
  hostname := hostname
  airportCode := []
  cluster := []
  serverIndex := []
  city := []
  country := []
  matched := false

/-- The server index of a match: the decimal group if it captured something, else the hexadecimal one after it. -/
def serverIndex (m : Regex.Groups) (k : Nat) : Text :=
  if captured m k ≠ [] then captured m k else "0x".toList ++ captured m (k + 1)

/-- A location at the place of a code, as far as the table has it. -/
def Location.at (loc : Location) (codes : Text → Option Place) : Location :=
  { loc with
    city := ((codes loc.airportCode).map (·.city)).getD loc.city
    country := ((codes loc.airportCode).map (·.country)).getD loc.country }

section Functions

variable (u : CaseData) (airportCodes regionalCodes : Text → Option Place)

/-- A hostname without white space at its ends, in lower case. -/
def normal (hostname : Text) : Text := u.toLowerCase (trim hostname)

/-- `decode`. -/
def decode (hostname : Text) : Location :=
  let h := normal u hostname
  let loc := emptyLocation hostname
  if let some m := pattern1.exec h then
    let found := { loc with matched := true, airportCode := captured m 1, cluster := captured m 2 ++ "s".toList ++ captured m 3 }
    { found with serverIndex := serverIndex m 4 }.at airportCodes
  else if let some m := pattern2.exec h then
    { loc with matched := true, airportCode := captured m 1, serverIndex := serverIndex m 2 }.at regionalCodes
  else if let some m := pattern3.exec h then
    { loc with
      matched := true, airportCode := captured m 2, cluster := captured m 4, serverIndex := serverIndex m 5 }.at airportCodes
  else if let some m := pattern4.exec h then
    let found := { loc with matched := true, airportCode := "any".toList, serverIndex := "0x".toList ++ captured m 1 }
    { found with city := "Anycast".toList }
  else loc

/-- A text without a dot at its end. -/
def withoutDot (h : Text) : Text := if h.getLast? = some '.' then h.dropLast else h

/-- `isHostname`. -/
def isHostname (s : Text) : Bool := ".1e100.net".toList.isSuffixOf (withoutDot (normal u s))

/-- `siblingHostname`. -/
def siblingHostname (hostname : Text) : Option Text :=
  if !isHostname u hostname then none
  else do
    let m ← siblingPattern.exec (normal u hostname)
    if captured m 2 ≠ [] then
      let n ← natural 10 (captured m 2)
      if 0xff < n then none
      else some (captured m 1 ++ "x".toList ++ (Nat.toDigits 16 n).leftpad 2 '0' ++ captured m 4)
    else
      let n ← natural 16 (captured m 3)
      some (captured m 1 ++ "f".toList ++ Nat.toDigits 10 n ++ captured m 4)

end Functions

end Gwsdb.Web.Geo
