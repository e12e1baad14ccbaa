import Gwsdb.Web.Html
import Gwsdb.Web.EdgeCache

/-!
# The home page

The templates of `functions/index.ts`: the shell that scripts fill, and the table for readers without scripts, which is sorted and
filtered by links.
-/

namespace Gwsdb.HomePage

open Gwsdb.Html
open Gwsdb.Web (SearchParams familyOf)
open Markup
open Markup.Piece (lit hole)

/-! ## Columns and links -/

/-- `sortColumns`, in the order of `sortColumnOrder`. -/
inductive Column where
  | ip
  | ptr
  | country
  | firstSeen
  | lastSeen
  | rtt
  deriving DecidableEq

/-- The value of `sort` for a column. -/
def Column.param : Column → String
  | ip => "ip"
  | ptr => "ptr"
  | country => "country"
  | firstSeen => "firstSeen"
  | lastSeen => "lastSeen"
  | rtt => "rtt"

def Column.label : Column → String
  | ip => "IP Address"
  | ptr => "PTR"
  | country => "Country"
  | firstSeen => "First Seen"
  | lastSeen => "Last Reachable"
  | rtt => "Last RTT"

def Column.defaultDesc : Column → Bool
  | ip | ptr | country => false
  | firstSeen | lastSeen | rtt => true

/-- `sortColumnOrder`. -/
def sortColumnOrder : List Column := [.ip, .ptr, .country, .firstSeen, .lastSeen, .rtt]

/-- `sortColumns[param]`, its own properties only. -/
def Column.ofParam (param : String) : Option Column := sortColumnOrder.find? (·.param = param)

/-- The characters that a serialized query keeps. -/
def isFormKept (c : Char) : Bool := c.isAlphanum || c ∈ ['*', '-', '.', '_']

/-- One override of `withParams`. -/
def override (params : SearchParams) (o : String × Option String) : SearchParams :=
  match o.2 with
  | none => params.delete o.1
  | some v => params.set o.1 v

/-- The parameters of `withParams`. -/
def overridden (params : SearchParams) (overrides : List (String × Option String)) : SearchParams :=
  overrides.foldl override (params.set "nojs" "1")

/-- `withParams`: the path and the query of the link. -/
def withParams (params : SearchParams) (overrides : List (String × Option String)) : String :=
  String.ofList ('/' :: '?' :: UrlEncoded.serialize isFormKept (overridden params overrides))

/-! ## What a request asks for -/

/-- `activeSort`. -/
def activeSort (params : SearchParams) : Option Column := (params.get "sort").bind Column.ofParam

/-- `activeDesc`. -/
def activeDesc (params : SearchParams) : Bool :=
  match activeSort params with
  | none => true
  | some col =>
    match params.get "desc" with
    | none => col.defaultDesc
    | some desc => desc = "1"

/-! ## The table -/

/-- `IPRow`. -/
structure IPRow where
  ip : String
  ptrList : List String
  country : String
  countryCode : String
  status : String
  firstSeen : String
  lastSeen : String
  lastRttMs : Int
  deriving DecidableEq

/-- `Stats`; the last check as `formatTime` writes it. -/
structure Stats where
  totalKnownIPs : Nat
  totalChecks : Nat
  lastCheckAt : String

/-- `statusHTML`. -/
def statusHTML (status : String) : Template :=
  if status = "Reachable" then [lit "<font color=\"#008000\" title=\"Reachable\" aria-label=\"Reachable\">&#x2713;</font>"]
  else if status = "Unreachable" then [lit "<font color=\"#CC0000\" title=\"Unreachable\" aria-label=\"Unreachable\">&#x2717;</font>"]
  else []

/-- `ptrCellHTML`. -/
def ptrCellHTML (ptrList : List String) : Template :=
  if ptrList = [] then [lit "-"]
  else [lit "<tt>"] ++ [lit "<br>"].intercalate (ptrList.map queryLink) ++ [lit "</tt>"]

/-- `countryCellHTML`. -/
def countryCellHTML (row : IPRow) : Template :=
  (if row.countryCode ≠ "" then
    [lit "<img src=\"/static/flags/", hole (uri row.countryCode), lit ".gif\" alt=\"", hole (text row.countryCode),
      lit "\" title=\"", hole (text row.country), lit "\" height=\"11\"> "]
  else []) ++
  if row.country ≠ "" then [hole (text row.country)] else [lit "-"]

/-- The link of `familyFilterHTML` to a family. -/
def familyLink (params : SearchParams) (value : Option String) : String := withParams params [("family", value)]

/-- One choice of `familyFilterHTML`. -/
def familyOption (params : SearchParams) (label : String) (value : Option String) (active : Bool) : Template :=
  if active then [lit "<b>", hole (text label), lit "</b>"]
  else [lit "<a href=\"", hole (text (familyLink params value)), lit "\">", hole (text label), lit "</a>"]

/-- `familyFilterHTML`. -/
def familyFilterHTML (params : SearchParams) (family : Option Nat) : Template :=
  [lit "<p>Family: "] ++ familyOption params "All" none (family = none) ++ [lit " | "] ++
  familyOption params "IPv4 only" (some "4") (family = some 4) ++ [lit " | "] ++
  familyOption params "IPv6 only" (some "6") (family = some 6) ++ [lit "</p>"]

/-- `0` and `1`. -/
def descParam (desc : Bool) : String := if desc then "1" else "0"

/-- The link of a column's header: its default direction, then the other, then the order of the pool. -/
def headerLink (params : SearchParams) (activeSort : Option Column) (activeDesc : Bool) (col : Column) : String :=
  if activeSort ≠ some col then withParams params [("sort", some col.param), ("desc", some (descParam col.defaultDesc))]
  else if activeDesc = col.defaultDesc then withParams params [("sort", some col.param), ("desc", some (descParam (!activeDesc)))]
  else withParams params [("sort", none)]

/-- The arrow of a column's header. -/
def arrow (active activeDesc : Bool) : Template :=
  if active then if activeDesc then [lit "&nbsp;&nbsp;&#8595;"] else [lit "&nbsp;&nbsp;&#8593;"] else [lit "&nbsp;&nbsp;&nbsp;"]

/-- `sortHeaderHTML`. -/
def sortHeaderHTML (params : SearchParams) (activeSort : Option Column) (activeDesc : Bool) : Template :=
  [lit "<thead><tr>\n"] ++
  [lit "\n"].intercalate (sortColumnOrder.map fun col =>
    [lit "<th scope=\"col\"><a href=\"", hole (text (headerLink params activeSort activeDesc col)),
      lit "\">", hole (text col.label),
      lit "<span class=\"arrow\">"] ++ arrow (activeSort = some col) activeDesc ++ [lit "</span></a></th>"]) ++
  [lit "\n</tr></thead>"]

/-- The mark of a row that was checked. -/
def rowStatus (status : String) : Template :=
  if status = "Reachable" ∨ status = "Unreachable" then
    [lit "<span class=\"gwsdb-row-status\">"] ++ statusHTML status ++ [lit "</span>"]
  else []

/-- The start of a row. -/
def rowStart (status : String) : Template :=
  if status = "Unreachable" then [lit "<tr class=\"gwsdb-unreachable\">\n<td>"] else [lit "<tr>\n<td>"]

/-- One row. -/
def rowHTML (row : IPRow) : Template :=
  rowStart row.status ++ rowStatus row.status ++ [lit "<tt>"] ++ queryLink row.ip ++ [lit "</tt></td>\n<td>"] ++
  ptrCellHTML row.ptrList ++ [lit "</td>\n<td>"] ++ countryCellHTML row ++
  [lit "</td>\n<td>", hole (text row.firstSeen), lit "</td>\n<td>", hole (text row.lastSeen), lit "</td>\n<td>"] ++
  rttCell row.lastRttMs ++ [lit "</td>\n</tr>"]

/-- The table, if there are rows. -/
def tableHTML (params : SearchParams) (ips : List IPRow) (activeSort : Option Column) (activeDesc : Bool) : Template :=
  if ips ≠ [] then
    [lit "<div class=\"gwsdb-scroll\">\n<table class=\"gwsdb-data gwsdb-pool\">\n"] ++
      sortHeaderHTML params activeSort activeDesc ++
    [lit "\n<tbody>\n"] ++ [lit "\n"].intercalate (ips.map rowHTML) ++ [lit "\n</tbody>\n</table>\n</div>"]
  else [lit "<p><i>No data yet. Please run a scan and import the results first.</i></p>"]

/-- The mode of the last check. -/
def scanModeHTML (scanMode : String) : Template := if scanMode ≠ "" then [lit " (", hole (text scanMode), lit ")"] else []

/-- `renderFullTable`. -/
def renderFullTable (params : SearchParams) (ips : List IPRow) (stats : Stats) (scanMode : String) (activeSort : Option Column)
    (activeDesc : Bool) (family : Option Nat) : Template :=
  [lit "<p>The table below lists tracked Google Web Server (GWS) IP addresses and their reachability status.</p>\n"] ++
  familyFilterHTML params family ++ [lit "\n"] ++ tableHTML params ips activeSort activeDesc ++
  [lit "
<hr>
<table border=\"0\" cellpadding=\"2\" cellspacing=\"0\">
<tr><td colspan=\"2\"><b>Statistics</b></td></tr>
<tr><td>Total Known IPs</td><td>", hole (number stats.totalKnownIPs), lit "</td></tr>\n<tr><td>Total Checks</td><td>",
    hole (number stats.totalChecks), lit "</td></tr>\n<tr><td>Last Check</td><td>", hole (text stats.lastCheckAt)] ++
  scanModeHTML scanMode ++ [lit "</td></tr>\n</table>"]

/-! ## The shell -/

/-- A header of the table that scripts fill. -/
def shellHeader (col : Column) : Template :=
  [lit "<th scope=\"col\"><a href=\"#\" data-sort=\"", lit col.param, lit "\" data-sort-desc=\"", lit (descParam col.defaultDesc),
    lit "\">", lit col.label, lit "<span class=\"arrow\" data-col=\"", lit col.param,
      lit "\">&nbsp;&nbsp;&nbsp;</span></a></th>\n"]

/-- `jsShellBody`. -/
def jsShellBody (build : BuildInfo) : Template :=
  [lit "<p>The table below lists tracked Google Web Server (GWS) IP addresses and their reachability status.</p>

<noscript><p><i>This page needs JavaScript to fetch and render the IP list client-side. You should have been redirected
  automatically -- if not, <a href=\"/?nojs=1\">click here for the full list</a>.</i></p></noscript>

<p id=\"poolStatus\">Loading&hellip;</p>

<p>
<span id=\"visibleCount\">0</span> / <span id=\"familyCount\">0</span> match filter
</p>

<p class=\"gwsdb-filters\">
<span class=\"gwsdb-search-filter\">
<input type=\"text\" id=\"searchInput\" placeholder=\"Search IP, PTR or country\" size=\"30\">
<input type=\"button\" id=\"clearButton\" value=\"Clear\">
</span>
</p>

<div class=\"gwsdb-family-tabs\" role=\"group\" aria-label=\"IP address family\">
<input type=\"radio\" id=\"family4\" name=\"family\" value=\"4\" checked>
<label for=\"family4\">IPv4</label>
<input type=\"radio\" id=\"family6\" name=\"family\" value=\"6\">
<label for=\"family6\">IPv6</label>
</div>
<div class=\"gwsdb-scroll gwsdb-tab-panel gwsdb-hidden\" id=\"ipTableWrap\">
<table class=\"gwsdb-data gwsdb-pool\" id=\"ipTable\">
<thead><tr>
"] ++
  sortColumnOrder.flatMap shellHeader ++
  [lit "</tr></thead>
<tbody id=\"ipTableBody\">
</tbody>
</table>
</div>
<p align=\"center\" id=\"pagerWrap\" class=\"gwsdb-pager gwsdb-hidden\">
<button type=\"button\" id=\"prevButton\" class=\"gwsdb-pager-arrow\">&lt;-</button>
<span id=\"pageInfo\"></span>
<button type=\"button\" id=\"nextButton\" class=\"gwsdb-pager-arrow\">-&gt;</button>
</p>
<script type=\"module\" src=\"/static/home.js"] ++
  versionQuery build ++
  [lit "\"></script>

<hr>
<table border=\"0\" cellpadding=\"2\" cellspacing=\"0\">
<tr><td colspan=\"2\"><b>Statistics</b></td></tr>
<tr><td>Total Known IPs</td><td id=\"totalKnownIPs\">-</td></tr>
<tr><td>Total Checks</td><td id=\"totalChecks\">-</td></tr>
<tr><td>Last Check</td><td id=\"lastCheck\">-</td></tr>
</table>"]

/-- `nojsRefresh`. -/
def nojsRefresh : Template := [lit "<noscript><meta http-equiv=\"refresh\" content=\"0;url=/?nojs=1\"></noscript>"]

/-- `DEFAULT_HOME_DESCRIPTION`. -/
def DEFAULT_HOME_DESCRIPTION : String :=
  "Live-updated list of known Google Web Server (GWS) IPs reachable from China, with PTR, country, and reachability status."

/-- What `loadPool` gives. -/
structure Pool where
  ips : List IPRow
  scanMode : String
  stats : Stats

/-- The page with the table of a pool, for the reader's URL. -/
def tablePage (params : SearchParams) (pool : Pool) (commitSha : Option CommitSha) : Template :=
  let build := buildInfoFromEnv commitSha
  let body := renderFullTable params pool.ips pool.stats pool.scanMode (activeSort params) (activeDesc params) (familyOf params)
  pageShell ⟨"Home", body, build, [], .en, some DEFAULT_HOME_DESCRIPTION⟩

/-- The page that scripts fill. -/
def shellPage (commitSha : Option CommitSha) : Template :=
  let build := buildInfoFromEnv commitSha
  pageShell ⟨"Home", jsShellBody build, build, nojsRefresh, .en, some DEFAULT_HOME_DESCRIPTION⟩

/-- `bot`: the request gets the table; `crawler` is what `isCrawlerUA` says. -/
def isBot (crawler : Bool) (params : SearchParams) : Bool := crawler || params.get "nojs" = some "1"

/-- What `onRequestGet` renders, from the pool that `loadPool` gave where it renders the table. -/
def homePage (crawler : Bool) (params : SearchParams) (pool : Pool) (commitSha : Option CommitSha) : Template :=
  if isBot crawler params then tablePage params pool commitSha else shellPage commitSha

/-! ## Without scripts -/

/-- The parameters of the request that a link leads to. -/
def follow (link : String) : Option SearchParams := UrlEncoded.parse ((link.toList.dropWhile (· ≠ '?')).drop 1)

/-- A link of the page: that of a column's header, or one of the families. -/
inductive Choice where
  | column (col : Column)
  | all
  | ipv4
  | ipv6
  deriving DecidableEq

/-- The link, as the page has it. -/
def Choice.link (params : SearchParams) : Choice → String
  | column col => headerLink params (activeSort params) (activeDesc params) col
  | all => familyLink params none
  | ipv4 => familyLink params (some "4")
  | ipv6 => familyLink params (some "6")

end Gwsdb.HomePage
