import Gwsdb.Lib.Markup
import Gwsdb.Lib.UrlEncoded

/-!
# The frame of the pages

`src/html.ts`. A template of the source is a list of literals and holes: a hole is a text behind `escapeHTML`, one behind
`encodeURIComponent`, or a number or revision that is written as it is.
-/

namespace Gwsdb.Html

open Markup
open Markup.Piece (lit hole)

/-! ## What is written for a text -/

/-- `replace` of every occurrence of a character. -/
def replaceAll (c : Char) (replacement : List Char) (s : List Char) : List Char :=
    s.flatMap fun x => if x = c then replacement else [x]

/-- `escapeHTML`. -/
def escapeHTML (s : List Char) : List Char :=
  let s := replaceAll '&' ['&', 'a', 'm', 'p', ';'] s
  let s := replaceAll '<' ['&', 'l', 't', ';'] s
  let s := replaceAll '>' ['&', 'g', 't', ';'] s
  let s := replaceAll '"' ['&', 'q', 'u', 'o', 't', ';'] s
  replaceAll '\'' ['&', '#', '3', '9', ';'] s

/-- What one character becomes. -/
def escapeChar (c : Char) : List Char :=
  if c = '&' then ['&', 'a', 'm', 'p', ';']
  else if c = '<' then ['&', 'l', 't', ';']
  else if c = '>' then ['&', 'g', 't', ';']
  else if c = '"' then ['&', 'q', 'u', 'o', 't', ';']
  else if c = '\'' then ['&', '#', '3', '9', ';']
  else [c]

/-- The replacements that come later leave those that came before alone. -/
theorem escapeHTML_eq (s : List Char) : escapeHTML s = s.flatMap escapeChar := by
  unfold escapeHTML replaceAll
  simp only [List.flatMap_assoc]
  refine List.flatMap_congr fun c _ => ?_
  unfold escapeChar
  split
  · rfl
  split
  · rename_i h
    rw [h]
    rfl
  split
  · rename_i h
    rw [h]
    rfl
  split
  · rename_i h
    rw [h]
    rfl
  split
  · rename_i h
    rw [h]
    rfl
  · rename_i hamp hlt hgt hquote hapos
    simp [hlt, hgt, hquote, hapos]

/-- What is written for a character is read as that character. -/
theorem read_escapeChar (c : Char) (s : State) (f : Char → Event) (hf : s.mode.hole = some f) :
    read s (escapeChar c) = some ([f c], s) := by
  have hplain : isPlain c = true → read s [c] = some ([f c], s) := fun h => read_plain h hf
  obtain ⟨mode, elements⟩ := s
  unfold escapeChar
  cases mode with
  | content =>
    cases hf
    split_ifs with hamp hlt hgt hquote hapos
    · rw [hamp]; rfl
    · rw [hlt]; rfl
    · rw [hgt]; rfl
    · rw [hquote]; rfl
    · rw [hapos]; rfl
    · exact hplain (by simp [isPlain, hamp, hlt, hquote])
  | value name =>
    cases hf
    split_ifs with hamp hlt hgt hquote hapos
    · rw [hamp]; rfl
    · rw [hlt]; rfl
    · rw [hgt]; rfl
    · rw [hquote]; rfl
    · rw [hapos]; rfl
    · exact hplain (by simp [isPlain, hamp, hlt, hquote])
  | _ => cases hf

/-- A text behind `escapeHTML`. -/
def text (s : String) : Datum where
  written := escapeHTML s.toList
  meant := s.toList
  reads st f hf := by
    rw [escapeHTML_eq]
    exact (Datum.ofChars escapeChar read_escapeChar s.toList).reads st f hf

/-- The characters that `encodeURIComponent` keeps. -/
def isUnescaped (c : Char) : Bool := c.isAlphanum || c ∈ ['-', '_', '.', '!', '~', '*', '\'', '(', ')']

/-- `encodeURIComponent`. -/
def encodeURIComponent (s : List Char) : List Char := UrlEncoded.encode isUnescaped s

theorem keeps_isUnescaped : UrlEncoded.Keeps isUnescaped := ⟨by decide, by decide⟩

/-- It is written in characters that markup takes for themselves. -/
theorem isPlain_encodeURIComponent (s : List Char) : ∀ c ∈ encodeURIComponent s, isPlain c = true := by
  intro c hc
  have hne : ∀ x : Char, isUnescaped x = false → x ≠ '%' → (∀ d < 16, x ≠ (Nat.digitChar d).toUpper) → c ≠ x := by
    rintro x hkeep hpercent hdigit rfl
    exact UrlEncoded.notMem_encode hkeep hpercent hdigit s hc
  simp [isPlain, hne '<' (by decide) (by decide) (by decide), hne '&' (by decide) (by decide) (by decide),
    hne '"' (by decide) (by decide) (by decide)]

/-- A text behind `encodeURIComponent`. -/
def uri (s : String) : Datum := Datum.plain (encodeURIComponent s.toList) (isPlain_encodeURIComponent s.toList)

/-- Digits are plain. -/
theorem isPlain_toDigits (n : Nat) : ∀ c ∈ Nat.toDigits 10 n, isPlain c = true := by
  intro c hc
  obtain ⟨d, hd, rfl⟩ := Digits.isDigit_of_mem_toDigits (by decide) c hc
  interval_cases d <;> rfl

/-- A number. -/
def number (n : Nat) : Datum := Datum.plain (Nat.toDigits 10 n) (isPlain_toDigits n)

/-- A number that may be negative. -/
def integer : Int → Datum
  | .ofNat n => number n
  | .negSucc n => Datum.plain ('-' :: (number (n + 1)).written) fun c hc => by
    rcases List.mem_cons.1 hc with rfl | hc
    · rfl
    · exact isPlain_toDigits (n + 1) c hc

/-- A link to the query of a text, which it shows. -/
def queryLink (s : String) : Template := [lit "<a href=\"/query?ip=", hole (uri s), lit "\">", hole (text s), lit "</a>"]

/-- The last round trip, or a dash. -/
def rttCell (lastRttMs : Int) : Template := if lastRttMs ≠ 0 then [hole (integer lastRttMs), lit " ms"] else [lit "-"]

/-! ## The frame -/

/-- A commit: digits in base sixteen. -/
structure CommitSha where
  text : String
  hex : ∀ c ∈ text.toList, Digits.digitValue c ≠ none

/-- `BuildInfo`; the revision is written into an address as it is. -/
structure BuildInfo where
  revision : String
  commitURL : String
  plain : ∀ c ∈ revision.toList, isPlain c = true

/-- `repoURL`. -/
def repoURL : String := "https://github.com/cuthead/gwsdb"

theorem isPlain_of_digitValue {c : Char} (h : Digits.digitValue c ≠ none) : isPlain c = true := by
  obtain ⟨d, hd⟩ := Option.ne_none_iff_exists'.1 h
  exact Digits.ascii_all (P := fun c => Digits.digitValue c ≠ none → isPlain c = true) (by decide) c
    (Digits.toNat_lt_of_digitValue hd) h

/-- `buildInfoFromEnv`. -/
def buildInfoFromEnv (commitSha : Option CommitSha) : BuildInfo :=
  match commitSha with
  | none => ⟨"", "", by simp⟩
  | some sha =>
    if sha.text = "" then ⟨"", "", by simp⟩
    else
      ⟨String.ofList (sha.text.toList.take 7), repoURL ++ "/commit/" ++ sha.text, fun c hc => by
        rw [String.toList_ofList] at hc
        exact isPlain_of_digitValue (sha.hex c (List.mem_of_mem_take hc))⟩

/-- The revision, as it is. -/
def BuildInfo.hole (build : BuildInfo) : Datum := Datum.plain build.revision.toList build.plain

/-- `?v=` and the revision, if there is one. -/
def versionQuery (build : BuildInfo) : Template := if build.revision ≠ "" then [lit "?v=", hole build.hole] else []

/-- `footerHTML`. -/
def footerHTML (build : BuildInfo) : Template :=
  if build.revision ≠ "" then
    [lit "commit <a href=\"", hole (text build.commitURL), lit "\">", hole (text build.revision), lit "</a>"]
  else [lit "<a href=\"", lit "https://github.com/cuthead/gwsdb", lit "\">gwsdb</a>"]

/-- The languages of a page. -/
inductive Lang where
  | en
  | zh

/-- The names that the page gives itself in its language, and those of `NAV_EN` and `NAV_ZH`. -/
def Lang.code : Lang → String
  | .en => "en"
  | .zh => "zh"

def Lang.home : Lang → String
  | .en => "Home"
  | .zh => "首页"

def Lang.query : Lang → String
  | .en => "Query"
  | .zh => "查询"

/-- `DEFAULT_DESCRIPTION`. -/
def DEFAULT_DESCRIPTION : String :=
  "Community-maintained database of Google Web Server (GWS) IPs reachable from China, with PTR/ASN lookups, on-demand probes, and check history."

/-- The options of `pageShell`. -/
structure Shell where
  title : String
  body : Template
  build : BuildInfo
  extraHead : Template
  lang : Lang
  description : Option String

/-- `pageShell`. -/
def pageShell (opts : Shell) : Template :=
  let description := opts.description.getD DEFAULT_DESCRIPTION
  [lit "<!DOCTYPE html>\n<html lang=\"", lit opts.lang.code,
    lit "\">
<head>
<meta http-equiv=\"Content-Type\" content=\"text/html; charset=UTF-8\">
<meta name=\"viewport\" content=\"width=device-width, initial-scale=1\">
<meta name=\"description\" content=\"",
    hole (text description), lit "\">\n<meta property=\"og:title\" content=\"",
    hole (text opts.title), lit " - GWS Database", lit "\">\n<meta property=\"og:description\" content=\"",
    hole (text description), lit "\">\n<meta property=\"og:type\" content=\"website\">\n"] ++
  opts.extraHead ++
  [lit "\n<title>", hole (text opts.title), lit " - GWS Database",
    lit "</title>
<link rel=\"stylesheet\" href=\"/static/gwsdb.css\">
</head>
<body bgcolor=\"#FFFFFF\" text=\"#000000\" link=\"#0000EE\" vlink=\"#551A8B\">
<div class=\"gwsdb-wrap\">
<header class=\"gwsdb-title\"><b>GWS Database</b></header>
<div class=\"gwsdb-main\">
<nav class=\"gwsdb-sidebar\" aria-label=\"Quick Links\">
<div class=\"gwsdb-menu-header\">Quick Links</div>
<ul>
<li><a href=\"/\">", lit opts.lang.home, lit "</a></li>\n<li><a href=\"/query\">", lit opts.lang.query,
    lit "</a></li>\n</ul>\n</nav>\n<main class=\"gwsdb-content\">\n<font face=\"Arial,Helvetica,sans-serif\" size=\"-1\">\n"] ++
  opts.body ++
  [lit "\n</font>\n</main>\n</div>\n<footer class=\"gwsdb-footer\">\n"] ++
  footerHTML opts.build ++
  [lit "\n</footer>\n</div>\n</body>\n</html>\n"]

end Gwsdb.Html
