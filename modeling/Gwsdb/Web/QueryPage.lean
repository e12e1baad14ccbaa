import Gwsdb.Web.Html

/-!
# The query page

The templates of `functions/query.ts`, given what the lookups found.
-/

namespace Gwsdb.QueryPage

open Gwsdb.Html
open Markup
open Markup.Piece (lit hole)

/-- `AddrStatus`. -/
structure AddrStatus where
  addr : String
  status : String

/-- `HostnameForm`. -/
structure HostnameForm where
  hostname : String
  ipv4 : List AddrStatus
  ipv6 : List AddrStatus
  failed : Bool

/-- `QueryData`. -/
structure QueryData where
  query : String
  submitted : Bool
  error : String
  ptrHostnames : List String
  ptrFailed : Bool
  matched : Bool
  airportCode : String
  city : String
  country : String
  hasHistory : Bool
  status : String
  firstSeen : String
  lastSeen : String
  timesSeen : Nat
  lastRttMs : Int
  queryIsHostname : Bool
  hostnameForms : List HostnameForm
  canProbe : Bool

/-- `queryDescription`. -/
def queryDescription (data : QueryData) : String :=
  if !data.submitted then
    "Look up whether an IP address or 1e100.net hostname belongs to a Google Web Server reachable from China."
  else if data.error ≠ "" then data.query ++ ": " ++ data.error ++ "."
  else
    let location := if data.matched then (if data.city ≠ "" then data.city ++ ", " ++ data.country else data.country) else ""
    if data.queryIsHostname then
      if location ≠ "" then data.query ++ ": 1e100.net hostname, estimated location " ++ location ++ "."
      else data.query ++ ": 1e100.net hostname."
    else
      let status := data.query ++ ": " ++ if data.hasHistory then data.status else "no scan history"
      (if location ≠ "" then status ++ ", estimated location " ++ location else status) ++ "."

/-- `statusHTML`. -/
def statusHTML (status reachableLabel unreachableLabel : String) : Template :=
  if status = "Reachable" then [lit "<font color=\"#008000\">&#x2713; ", lit reachableLabel, lit "</font>"]
  else if status = "Unreachable" then [lit "<font color=\"#CC0000\">&#x2717; ", lit unreachableLabel, lit "</font>"]
  else [lit "-"]

/-- `addrCol`. -/
def addrCol (failed : Bool) (addrs : List AddrStatus) : Template :=
  if addrs ≠ [] then
    addrs.flatMap fun a => [lit "<tt>"] ++ queryLink a.addr ++ [lit "</tt> "] ++ statusHTML a.status "" "" ++ [lit "<br>"]
  else if failed then [lit "<i>lookup failed</i>"]
  else [lit "<i>none</i>"]

/-- The estimated location. -/
def locationCell (data : QueryData) : Template :=
  if data.country ≠ "" then
    if data.city ≠ "" then [hole (text data.city), lit ", ", hole (text data.country)] else [hole (text data.country)]
  else [lit "<i>Airport code not in database, cannot estimate</i>"]

/-- One hostname with its addresses. -/
def formRow (form : HostnameForm) : Template :=
  [lit "<tr>\n<td><tt>"] ++ queryLink form.hostname ++ [lit "</tt></td>\n<td>"] ++ addrCol form.failed form.ipv4 ++
  [lit "</td>\n<td>"] ++ addrCol form.failed form.ipv6 ++ [lit "</td>\n</tr>"]

/-- The location of a hostname. -/
def hostnameLocation (data : QueryData) : Template :=
  if data.matched then
    [lit "<tr>\n<td>Airport Code</td>\n<td colspan=\"2\"><tt>", hole (text data.airportCode),
      lit "</tt></td>\n</tr>\n<tr>\n<td>Estimated Location</td>\n<td colspan=\"2\">"] ++ locationCell data ++ [lit "</td>\n</tr>"]
  else
    [lit "<tr>
<td colspan=\"3\"><i>This does not match the known 1e100.net naming convention, cannot estimate a location</i></td>
</tr>"]

/-- `renderHostnameBranch`. -/
def renderHostnameBranch (data : QueryData) : Template :=
  [lit "<div class=\"gwsdb-scroll\">\n<table class=\"gwsdb-data\">\n<thead>\n<tr><th colspan=\"3\">Query Result: ",
    hole (text data.query), lit "</th></tr>
<tr><th scope=\"col\">Hostname</th><th scope=\"col\">A (IPv4)</th><th scope=\"col\">AAAA (IPv6)</th></tr>
</thead>
<tbody>
"] ++
  [lit "\n"].intercalate (data.hostnameForms.map formRow) ++ [lit "\n"] ++ hostnameLocation data ++
  [lit "\n</tbody>\n</table>\n</div>"]

/-- The names of an address. -/
def ptrCell (data : QueryData) : Template :=
  if data.ptrHostnames ≠ [] then
    [lit "<tt>"] ++ [lit "<br>"].intercalate (data.ptrHostnames.map queryLink) ++ [lit "</tt>"]
  else if data.ptrFailed then
    [lit "<i>(PTR lookup failed -- the reverse zone for this address did not answer)</i>"]
  else [lit "<i>(no PTR record)</i>"]

/-- Its location. -/
def ipLocation (data : QueryData) : Template :=
  if data.matched then
    [lit "<tr>\n<td>Airport Code</td>\n<td><tt>", hole (text data.airportCode),
      lit "</tt></td>\n</tr>\n<tr>\n<td>Estimated Location</td>\n<td>"] ++ locationCell data ++ [lit "</td>\n</tr>"]
  else if data.ptrHostnames ≠ [] then
    [lit "<tr>
<td>Estimated Location</td>
<td><i>This PTR does not match the known 1e100.net naming convention, cannot parse</i></td>
</tr>"]
  else []

/-- `overview`. -/
def overview (data : QueryData) : Template :=
  if data.hasHistory then
    [lit "<tr><th colspan=\"2\">Reachability Overview</th></tr>\n<tr><td>Current Status</td><td>"] ++
    statusHTML data.status "Reachable" "Unreachable" ++
    [lit "</td></tr>\n<tr><td>First Seen</td><td>", hole (text data.firstSeen),
      lit "</td></tr>\n<tr><td>Last Reachable</td><td>", hole (text data.lastSeen),
      lit "</td></tr>\n<tr><td>Total Times Seen</td><td>", hole (number data.timesSeen),
      lit "</td></tr>\n<tr><td>Last RTT</td><td>"] ++ rttCell data.lastRttMs ++ [lit "</td></tr>"]
  else
    [lit "<tr><td colspan=\"2\"><i>This IP is not in the known scan results (it may not have been scanned, or was never found reachable)</i></td></tr>"]

/-- `checksTable`. -/
def checksTable (data : QueryData) : Template :=
  if data.hasHistory then
    [lit "<p></p>\n<div id=\"historySection\" data-ip=\"", hole (text data.query),
      lit "\">
<noscript><p><i>JavaScript is required to load check history.</i></p></noscript>
<p id=\"historyStatus\">Loading check history&hellip;</p>
<div class=\"gwsdb-scroll gwsdb-hidden\" id=\"historyTableWrap\">
<table class=\"gwsdb-data\" id=\"historyTable\">
<thead>
<tr><th colspan=\"4\">Check History (<span id=\"historyCount\">0</span> checks, newest first)</th></tr>
<tr><th scope=\"col\">Time</th><th scope=\"col\">Result</th><th scope=\"col\">Reason</th><th scope=\"col\">RTT</th></tr>
</thead>
<tbody id=\"historyTableBody\"></tbody>
</table>
</div>
<p align=\"center\" id=\"historyPager\" class=\"gwsdb-pager gwsdb-hidden\">
<button type=\"button\" id=\"historyPrev\" class=\"gwsdb-pager-arrow\">&lt;-</button>
<span id=\"historyPageInfo\"></span>
<button type=\"button\" id=\"historyNext\" class=\"gwsdb-pager-arrow\">-&gt;</button>
</p>
</div>"]
  else []

/-- `probeCell`. -/
def probeCell (data : QueryData) : Template :=
  if data.canProbe then
    [lit "<button type=\"button\" id=\"probeBtn\" data-ip=\"", hole (text data.query),
      lit "\">立即检测</button> <span id=\"probeStatus\"></span>"]
  else [lit "<font color=\"#666666\">仅中国大陆IP可即时检测</font>"]

/-- `renderIPBranch`. -/
def renderIPBranch (data : QueryData) (build : BuildInfo) : Template :=
  [lit "<div class=\"gwsdb-scroll\">\n<table class=\"gwsdb-data\">\n<thead><tr><th colspan=\"2\">Query Result: ",
    hole (text data.query), lit "</th></tr></thead>\n<tbody>\n<tr>\n<td width=\"30%\">PTR Record</td>\n<td>"] ++ ptrCell data ++
  [lit "</td>\n</tr>\n"] ++ ipLocation data ++ [lit "\n"] ++ overview data ++ [lit "\n</tbody>\n</table>\n</div>\n"] ++
  checksTable data ++
  [lit "

<p></p>
<div class=\"gwsdb-scroll\">
<table class=\"gwsdb-data\">
<thead><tr><th>即时检测</th></tr></thead>
<tbody>
<tr>
<td>
"] ++ probeCell data ++
  [lit "\n</td>\n</tr>\n</tbody>\n</table>\n</div>\n<script src=\"/static/query.js"] ++ versionQuery build ++ [lit "\"></script>"]

/-- The result of a query. -/
def result (data : QueryData) (build : BuildInfo) : Template :=
  if !data.submitted then []
  else if data.error ≠ "" then [lit "<hr>\n<p><font color=\"#CC0000\">", hole (text data.error), lit "</font></p>"]
  else if data.queryIsHostname then [lit "<hr>\n"] ++ renderHostnameBranch data
  else [lit "<hr>\n"] ++ renderIPBranch data build

/-- `renderQueryBody`. -/
def renderQueryBody (data : QueryData) (build : BuildInfo) : Template :=
  [lit "<p>Enter an IP address within a Google ASN to look up its PTR record, or a 1e100.net hostname to look up its A/AAAA records, and estimate its geographic location.</p>

<form method=\"GET\" action=\"/query\">
<table border=\"0\" cellpadding=\"4\" cellspacing=\"0\">
<tr>
<td>IP or 1e100.net Hostname</td>
<td><input type=\"text\" name=\"ip\" size=\"28\" value=\"", hole (text data.query),
    lit "\"></td>\n<td><input type=\"submit\" value=\"Query\"></td>\n</tr>\n</table>\n</form>\n"] ++
  result data build ++
  [lit "

<hr>
<p><font size=\"-2\" color=\"#666666\">
Location estimates are based on the <a href=\"https://github.com/lennylxx/ipv6-hosts/wiki/1e100.net\">1e100.net PTR naming convention</a> (a community-maintained, unofficial document, for reference only).
</font></p>"]

/-- The page that `onRequestGet` answers with. -/
def queryPage (data : QueryData) (commitSha : Option CommitSha) : Template :=
  let build := buildInfoFromEnv commitSha
  pageShell ⟨"Query", renderQueryBody data build, build, [], .en, some (queryDescription data)⟩

end Gwsdb.QueryPage
