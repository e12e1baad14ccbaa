import Gwsdb.Lib.Transition
import Gwsdb.Web.HomePage
import Gwsdb.Web.HomeTable

/-!
# Requests for the home page

`onRequestGet` of `functions/index.ts`, with `loadPool` as it calls it. A page with the table is kept in the edge cache under the
URL of the request that it was rendered for, with the version of the pool as its `v`. Readers without scripts follow the links of
the pages they got, wherever these came from. The tables of places and the data of `toLowerCase` are arguments.
-/

namespace Gwsdb.HomePage

open Gwsdb.Store
open Gwsdb.HomeTable (compareText decodeBest)
open Gwsdb.Web (DbKey EdgeCall EdgeCaches EdgeProgram EdgeReply LoadPoolOptions SearchParams answerEdge askEdge
  familyOf ofStore overview statusOf)
open Gwsdb.Web.Geo (Place Text)
open Interleave (Prog)
open JsCase (CaseData)

/-! ## The rows -/

/-- `countryCodes`. -/
def countryCodes : List (String × String) :=
  [("Argentina", "ar"), ("Australia", "au"), ("Austria", "at"), ("Belgium", "be"), ("Brazil", "br"), ("Bulgaria", "bg"),
    ("Canada", "ca"), ("Chile", "cl"), ("China", "cn"), ("Colombia", "co"), ("Czechia", "cz"), ("Denmark", "dk"), ("Egypt", "eg"),
    ("Finland", "fi"), ("France", "fr"), ("Germany", "de"), ("Hong Kong", "hk"), ("Hungary", "hu"), ("India", "in"),
    ("Indonesia", "id"), ("Ireland", "ie"), ("Israel", "il"), ("Italy", "it"), ("Japan", "jp"),
      ("Kenya", "ke"), ("Malaysia", "my"),
    ("Mexico", "mx"), ("Netherlands", "nl"), ("New Zealand", "nz"), ("Nigeria", "ng"), ("Norway", "no"), ("Oman", "om"),
    ("Peru", "pe"), ("Philippines", "ph"), ("Poland", "pl"), ("Portugal", "pt"), ("Qatar", "qa"), ("Romania", "ro"),
    ("Saudi Arabia", "sa"), ("Singapore", "sg"), ("South Africa", "za"), ("South Korea", "kr"), ("Spain", "es"), ("Sweden", "se"),
    ("Switzerland", "ch"), ("Taiwan", "tw"), ("Thailand", "th"), ("United Arab Emirates", "ae"), ("United Kingdom", "gb"),
    ("United States", "us"), ("Uruguay", "uy")]

/-- `countryCode`. -/
def countryCode (country : String) : String := (countryCodes.lookup country).getD ""

section Places

variable (u : CaseData) (airportCodes regionalCodes : Text → Option Place)

/-- The country of the hostnames, if there are any. -/
def countryOf (hostnames : List String) : String :=
  if hostnames = [] then "" else String.ofList (decodeBest u airportCodes regionalCodes (hostnames.map String.toList)).country

/-- `toIPRow`. -/
def toIPRow (st : IPStatus) : IPRow where
  ip := st.ip
  ptrList := st.ptrHostname
  country := countryOf u airportCodes regionalCodes st.ptrHostname
  countryCode := countryCode (countryOf u airportCodes regionalCodes st.ptrHostname)
  status := statusOf st
  firstSeen := formatTime st.firstSeen
  lastSeen := formatTime st.lastSeen
  lastRttMs := st.lastRttMs

/-! ## The pool of a page -/

/-- `dbKey`. -/
def Column.dbKey : Column → DbKey
  | ip => .column .ip
  | ptr => .column .ptr
  | country => .country
  | firstSeen => .column .firstSeen
  | lastSeen => .column .lastSeen
  | rtt => .column .rtt

/-- What `onRequestGet` asks `loadPool` for. -/
def loadOptions (params : SearchParams) : LoadPoolOptions :=
  ⟨(activeSort params).map Column.dbKey, some (activeDesc params), familyOf params⟩

/-- The comparison of two countries lets the first row stand before the second. -/
def countryLE (desc : Bool) (a b : IPRow) : Bool := compareText desc a.country.toList b.country.toList ≤ 0

/-- The rows are sorted by country if that is asked for; `sort` is stable. -/
def sortCountries (opts : LoadPoolOptions) (ips : List IPRow) : List IPRow :=
  match opts.sortBy with
  | some .country => ips.mergeSort (countryLE (opts.sortDesc.getD true))
  | _ => ips

/-- What `loadPool` returns. -/
def poolOf (opts : LoadPoolOptions) (known : List IPStatus) (stats : Web.Stats) : Pool where
  ips := sortCountries opts (known.map (toIPRow u airportCodes regionalCodes))
  scanMode := (stats.2.bind (·.2)).getD ""
  stats := ⟨stats.1.1, stats.1.2, formatTime (stats.2.bind fun c => fromSQLiteDateTime (some c.1))⟩

/-! ## The handler -/

/-- A page with the table: what it was rendered from. -/
structure TablePage where
  params : SearchParams
  pool : Pool

/-- What `onRequestGet` answers. -/
inductive HomeResponse where
  | shell
  | table (page : TablePage)

/-- The document of an answer. -/
def HomeResponse.html (commitSha : Option Html.CommitSha) : HomeResponse → Markup.Template
  | shell => shellPage commitSha
  | table page => tablePage page.params page.pool commitSha

/-- A program of the handler. -/
abbrev HomeProgram (α : Type) := EdgeProgram TablePage α

/-- `cacheURL`: the parameters of the request, with the version as its `v`. -/
def cacheURL (params : SearchParams) (version : Nat) : SearchParams := params.set "v" (toString version)

/-- `loadPool`. -/
def loadPool (opts : LoadPoolOptions) (totalsHit : Bool) : HomeProgram Pool := do
  let known ← askEdge (.listKnownIPs opts.known)
  let stats ← ofStore (overview totalsHit)
  return poolOf u airportCodes regionalCodes opts known stats

/-- The page goes to the reader and into the edge cache. -/
def putPage (params : SearchParams) (version : Nat) (pool : Pool) : HomeProgram HomeResponse := do
  let _ ← askEdge (.waitUntilPut (cacheURL params version) ⟨params, pool⟩)
  return .table ⟨params, pool⟩

/-- The page is rendered from the pool. -/
def renderPage (params : SearchParams) (version : Nat) (totalsHit : Bool) : HomeProgram HomeResponse :=
  loadPool u airportCodes regionalCodes (loadOptions params) totalsHit >>= putPage params version

/-- The page of the edge cache, if it has one. -/
def cachedPage (params : SearchParams) (version : Nat) (totalsHit : Bool) : HomeProgram HomeResponse := do
  let cached ← askEdge (.cacheMatch (cacheURL params version))
  match cached with
  | some page => return .table page
  | none => renderPage u airportCodes regionalCodes params version totalsHit

/-- `onRequestGet`. A cache may always miss: `edgeHit` and `totalsHit` say whether it answers when it has an entry. -/
def handleHome (crawler : Bool) (params : SearchParams) (edgeHit totalsHit : Bool) : HomeProgram HomeResponse :=
  if !isBot crawler params then return .shell
  else do
    let version ← askEdge (.store .poolVersion)
    if edgeHit then cachedPage u airportCodes regionalCodes params version totalsHit
    else renderPage u airportCodes regionalCodes params version totalsHit

/-! ## Readers -/

/-- The page has the link: headers stand over rows, and the family that is shown is no link. -/
def TablePage.offers (page : TablePage) : Choice → Bool
  | .column _ => page.pool.ips ≠ []
  | .all => familyOf page.params ≠ none
  | .ipv4 => familyOf page.params ≠ some 4
  | .ipv6 => familyOf page.params ≠ some 6

/-- A request: the moment it began, who asks for what, the request on whose page the reader followed a
link to it, and what is left. -/
structure HomeRequest where
  began : Nat
  crawler : Bool
  params : SearchParams
  link : Option (Nat × Choice)
  prog : HomeProgram HomeResponse

/-- The present moment of the site, the caches and the requests, in the order they began. -/
structure Visits where
  now : Nat
  edge : EdgeCaches TablePage
  requests : List HomeRequest

/-- The first moment: nothing is cached. -/
def Visits.empty : Visits := ⟨0, .empty, []⟩

/-- The steps. The site moves on; a page is asked for, or a link of a page is followed; a request makes its next call; a page
comes into the edge cache or leaves it; the totals are those another request of the data centre has cached, or expire. -/
inductive VisitAct where
  | tick
  | visit (crawler : Bool) (params : SearchParams) (edgeHit totalsHit : Bool)
  | follow (i : Nat) (choice : Choice) (edgeHit totalsHit : Bool)
  | call (i : Nat)
  | settle (k : Nat)
  | drop (key : SearchParams)
  | share
  | expire

/-- A request begins. -/
def Visits.begin (w : Visits) (crawler : Bool) (params : SearchParams) (link : Option (Nat × Choice)) (edgeHit totalsHit : Bool) :
    Visits :=
  { w with
    requests := w.requests ++
      [⟨w.now, crawler, params, link, handleHome u airportCodes regionalCodes crawler params edgeHit totalsHit⟩] }

/-- One step, the site being `site n` at the moment `n`. -/
def nextVisit (site : Nat → Store.Site) (w : Visits) : VisitAct → Option Visits
  | .tick => some { w with now := w.now + 1 }
  | .visit crawler params edgeHit totalsHit => some (w.begin u airportCodes regionalCodes crawler params none edgeHit totalsHit)
  | .follow i choice edgeHit totalsHit =>
    match w.requests[i]? with
    | some ⟨_, crawler, _, _, .ret (.table page)⟩ =>
      if page.offers choice then (HomePage.follow (choice.link page.params)).map fun params =>
        w.begin u airportCodes regionalCodes crawler params (some (i, choice)) edgeHit totalsHit
      else none
    | _ => none
  | .call i =>
    match w.requests[i]? with
    | some ⟨began, crawler, params, link, .call c k⟩ => some
      { w with
        edge := (answerEdge (site w.now) c w.edge).2
        requests := w.requests.set i ⟨began, crawler, params, link, k (answerEdge (site w.now) c w.edge).1⟩ }
    | _ => none
  | .settle k => w.edge.puts[k]?.map fun put =>
    { w with edge := { w.edge with cache := w.edge.cache.put put.1 put.2, puts := w.edge.puts.eraseIdx k } }
  | .drop key => some { w with edge := { w.edge with cache := w.edge.cache.filter fun k _ => k ≠ key } }
  | .share => some { w with edge := { w.edge with totals := (site w.now).totals } }
  | .expire => some { w with edge := { w.edge with totals := none } }

end Places

end Gwsdb.HomePage
