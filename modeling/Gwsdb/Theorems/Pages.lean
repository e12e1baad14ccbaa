import Gwsdb.Lemmas.Pages
import Gwsdb.Lemmas.SearchParams

/-!
# The pages that the server renders

Whatever the data are, the pages are read as their templates say: every tag that is opened is closed in order, and each datum
stands in a text or a value, character by character (`pages_exact`). The table for readers without scripts keeps what it shows
in its links: each leads to a request that moves its order and its family as a click on a header or a family says
(`follow_link`), and keeps the rest.
-/

namespace Gwsdb.HomePage

open Gwsdb.Html
open Gwsdb.Web (SearchParams familyOf)
open Gwsdb.Web.SearchParams (get_delete_self get_of_getAll get_set_ne get_set_self getAll_delete_ne getAll_set_ne)
open Markup

/-! ## What is read -/

/-- A link to the query of a text asks for that text. -/
theorem query_asks (s : String) : UrlEncoded.parse (['i', 'p', '='] ++ (uri s).written) = some [("ip", s)] := by
  have hfree : '&' ∉ ['i', 'p', '='] ++ encodeURIComponent s.toList := by
    rw [List.mem_append, not_or]
    exact ⟨by decide, UrlEncoded.notMem_encode (by decide) (by decide) (by decide) s.toList⟩
  have hsplit : (['i', 'p', '='] ++ encodeURIComponent s.toList).splitOn '&' =
      [['i', 'p', '='] ++ encodeURIComponent s.toList] := by
    have h := List.splitOn_intercalate '&' (List.forall_mem_singleton.2 hfree) (List.cons_ne_nil _ _)
    rwa [List.intercalate_singleton] at h
  have hpair : UrlEncoded.readPair (['i', 'p', '='] ++ encodeURIComponent s.toList) = some ("ip", s) := by
    unfold UrlEncoded.readPair
    show ((UrlEncoded.decode ['i', 'p']).bind fun name => (UrlEncoded.decode (encodeURIComponent s.toList)).bind _) = _
    rw [encodeURIComponent, UrlEncoded.decode_encode keeps_isUnescaped,
      UrlEncoded.decode_of_bytes (s := ['i', 'p']) (t := ['i', 'p']) (by decide)]
    simp
  unfold UrlEncoded.parse
  rw [show (uri s).written = encodeURIComponent s.toList from rfl, hsplit, List.filter_cons_of_pos (by simp), List.filter_nil,
    List.mapM_cons, hpair]
  rfl

/-- The query of the link to a text. -/
def queryOf (s : String) : List Char := ['i', 'p', '='] ++ (uri s).written

/-- What is read of a link. -/
def linkEvents (href shown : List Char) : List Event :=
  "<a href=\"".toList.map .markup ++ href.map .value ++ "\">".toList.map .markup ++ shown.map .text ++ "</a>".toList.map .markup

/-- A link opens with its address. -/
theorem read_linkOpen (elements : List Name) : read ⟨.content, elements⟩ "<a href=\"/query?ip=".toList =
    some ("<a href=\"".toList.map .markup ++ "/query?ip=".toList.map .value, ⟨.value ['a'], elements⟩) := by
  simp only [String.reduceToList]
  rfl

/-- Then comes what it shows. -/
theorem read_linkShown (elements : List Name) :
    read ⟨.value ['a'], elements⟩ "\">".toList = some ("\">".toList.map .markup, ⟨.content, ['a'] :: elements⟩) := by
  simp only [String.reduceToList]
  rfl

/-- Then it closes. -/
theorem read_linkClose (elements : List Name) :
    read ⟨.content, ['a'] :: elements⟩ "</a>".toList = some ("</a>".toList.map .markup, ⟨.content, elements⟩) := by
  simp only [String.reduceToList]
  rfl

/-- What the link to a query should be read as. -/
theorem outline_queryLink (s : String) (elements : List Name) : outline ⟨.content, elements⟩ (queryLink s) =
    some ("<a href=\"".toList.map .markup ++ "/query?ip=".toList.map .value ++ ((uri s).written.map .value ++
      ("\">".toList.map .markup ++ (s.toList.map .text ++ "</a>".toList.map .markup))), ⟨.content, elements⟩) := by
  have hmeant : (uri s).meant = (uri s).written := rfl
  have htext : (text s).meant = s.toList := rfl
  rw [← hmeant, ← htext]
  unfold queryLink
  simp only [outline, read_linkOpen, read_linkShown, read_linkClose, Mode.hole, Option.bind_some,
    Option.map_some, List.append_nil]

/-- The link to the query of a text has that query, and shows the text. -/
theorem read_queryLink (s : String) (elements : List Name) :
    read ⟨.content, elements⟩ (render (queryLink s)) =
      some (linkEvents ("/query?".toList ++ queryOf s) s.toList, ⟨.content, elements⟩) := by
  have happend : ∀ a b c d e f : List Event, a ++ b ++ (c ++ (d ++ (e ++ f))) = a ++ (b ++ c) ++ d ++ e ++ f := by simp
  have hhref : "/query?".toList ++ queryOf s = "/query?ip=".toList ++ (uri s).written := by
    simp only [queryOf, String.reduceToList, List.cons_append, List.nil_append]
  have hlink := congrArg (linkEvents · s.toList) hhref
  refine (read_render (outline_queryLink s elements)).trans ?_
  rw [hlink]
  unfold linkEvents
  rw [List.map_append]
  exact congrArg (fun es => some (es, _)) (happend _ _ _ _ _ _)

/-- Whatever they are filled with, the query page and the home page are read as their templates say, and their
markup is that of the same templates without data; and each link to a query is read as a link that shows its text,
and asks for the text it shows. -/
theorem pages_exact (commitSha : Option CommitSha) :
    (∀ data, Exact (QueryPage.queryPage data commitSha)) ∧
    (∀ crawler params pool, Exact (homePage crawler params pool commitSha)) ∧
    (∀ s elements, read ⟨.content, elements⟩ (render (queryLink s)) =
      some (linkEvents ("/query?".toList ++ queryOf s) s.toList, ⟨.content, elements⟩)) ∧
    ∀ s, UrlEncoded.parse (queryOf s) = some [("ip", s)] := by
  refine ⟨fun data => ?_, fun crawler params pool => ?_, read_queryLink, query_asks⟩
  · exact exact_of_place (place_pageShell fits_nil (QueryPage.renderQueryBody_fits _ _))
  · unfold homePage
    split
    · exact exact_of_place (place_pageShell fits_nil (renderFullTable_fits _ _ _ _ _ _ _))
    · exact exact_of_place (place_pageShell (fits_lit fun _ => rfl) (jsShellBody_fits _))

/-! ## The links of the table -/

/-- What the table shows: a column and its direction, or the order of the pool, and a family, or both. -/
structure TableState where
  sort : Option (Column × Bool)
  family : Option Nat
  deriving DecidableEq

/-- What a request asks for. -/
def stateOf (params : SearchParams) : TableState := ⟨(activeSort params).map fun col => (col, activeDesc params), familyOf params⟩

/-- The order after a click on a header: the column's default direction, then the other one, then the order of the pool. -/
def clickColumn (sort : Option (Column × Bool)) (col : Column) : Option (Column × Bool) :=
  if sort = some (col, col.defaultDesc) then some (col, !col.defaultDesc)
  else if sort = some (col, !col.defaultDesc) then none
  else some (col, col.defaultDesc)

/-- What the table shows after a click. -/
def TableState.choose (s : TableState) : Choice → TableState
  | .column col => { s with sort := clickColumn s.sort col }
  | .all => { s with family := none }
  | .ipv4 => { s with family := some 4 }
  | .ipv6 => { s with family := some 6 }

/-- What a form keeps is kept by the URL encoding. -/
theorem keeps_isFormKept : UrlEncoded.FormKeeps isFormKept := ⟨⟨by decide, by decide⟩, by decide, by decide⟩

/-- A link leads to the parameters it was made of. -/
theorem follow_withParams (params : SearchParams) (overrides : List (String × Option String)) :
    follow (withParams params overrides) = some (overridden params overrides) := by
  unfold follow withParams
  rw [String.toList_ofList]
  exact UrlEncoded.parse_serialize keeps_isFormKept _

/-! ### One link -/

/-- Overriding keeps the values of other names. -/
theorem getAll_overridden_ne (params : SearchParams) (overrides : List (String × Option String)) {name : String}
    (h : ∀ o ∈ overrides, name ≠ o.1) : (overridden params overrides).getAll name = (params.set "nojs" "1").getAll name := by
  unfold overridden
  generalize params.set "nojs" "1" = params
  induction overrides generalizing params with
  | nil => rfl
  | cons o overrides ih =>
    obtain ⟨ho, hrest⟩ := List.forall_mem_cons.1 h
    rw [List.foldl_cons, ih hrest]
    unfold override
    split
    · exact getAll_delete_ne params ho
    · exact getAll_set_ne params _ ho

/-- A link changes only the parameters it overrides, and `nojs`. -/
theorem getAll_overridden (params : SearchParams) (overrides : List (String × Option String))
    {name : String} (hnojs : name ≠ "nojs")
    (h : ∀ o ∈ overrides, name ≠ o.1) : (overridden params overrides).getAll name = params.getAll name :=
  (getAll_overridden_ne params overrides h).trans (getAll_set_ne params "1" hnojs)

/-- A parameter that is not overridden is kept. -/
theorem get_overridden_ne (params : SearchParams) (overrides : List (String × Option String)) {name : String}
    (h : ∀ o ∈ overrides, name ≠ o.1) : (overridden params overrides).get name = (params.set "nojs" "1").get name :=
  get_of_getAll (getAll_overridden_ne params overrides h)

/-- A column is read back from its parameter. -/
theorem ofParam_param (col : Column) : Column.ofParam col.param = some col := by cases col <;> rfl

/-- A request that names a column and a direction. -/
theorem stateOf_sorted {params : SearchParams} {col : Column} {desc : Bool} (hsort : params.get "sort" = some col.param)
    (hdesc : params.get "desc" = some (descParam desc)) : stateOf params = ⟨some (col, desc), familyOf params⟩ := by
  have hactive : activeSort params = some col := by rw [activeSort, hsort, Option.bind_some, ofParam_param]
  have hdir : activeDesc params = desc := by
    unfold activeDesc
    rw [hactive, hdesc]
    cases desc <;> rfl
  rw [stateOf, hactive, hdir]
  rfl

/-- A link that sorts asks for its column and direction. -/
theorem stateOf_sort (params : SearchParams) (col : Column) (desc : Bool) :
    stateOf (overridden params [("sort", some col.param), ("desc", some (descParam desc))]) =
        ⟨some (col, desc), familyOf params⟩ := by
  have hfamily : familyOf (overridden params [("sort", some col.param), ("desc", some (descParam desc))]) = familyOf params := by
    unfold familyOf
    rw [get_overridden_ne _ _ (by simp), get_set_ne _ _ (by decide)]
  rw [← hfamily]
  refine stateOf_sorted ?_ ?_
  · show (SearchParams.set _ "desc" _).get "sort" = _
    rw [get_set_ne _ _ (by decide)]
    exact get_set_self _ _ _
  · exact get_set_self _ _ _

/-- A link that does not sort asks for no order. -/
theorem stateOf_unsorted (params : SearchParams) : stateOf (overridden params [("sort", none)]) = ⟨none, familyOf params⟩ := by
  have hactive : activeSort (overridden params [("sort", none)]) = none := by
    unfold activeSort
    rw [show overridden params [("sort", none)] = (params.set "nojs" "1").delete "sort" from rfl, get_delete_self]
    rfl
  have hfamily : familyOf (overridden params [("sort", none)]) = familyOf params := by
    unfold familyOf
    rw [get_overridden_ne _ _ (by simp), get_set_ne _ _ (by decide)]
  rw [stateOf, hactive, hfamily]
  rfl

/-- The header's link moves the order on. -/
theorem follow_column (params : SearchParams) (col : Column) :
    ∃ params', follow (Choice.link params (.column col)) = some params' ∧
    stateOf params' = (stateOf params).choose (.column col) := by
  show ∃ params', follow (headerLink params (activeSort params) (activeDesc params) col) = some params' ∧ _
  unfold headerLink
  by_cases hactive : activeSort params = some col
  · have hstate : (stateOf params).sort = some (col, activeDesc params) := by rw [stateOf, hactive]; rfl
    rw [if_neg (not_not.2 hactive)]
    by_cases hdesc : activeDesc params = col.defaultDesc
    · refine ⟨_, by rw [if_pos hdesc, follow_withParams], ?_⟩
      rw [stateOf_sort, TableState.choose, hstate, clickColumn, if_pos (by rw [hdesc]), hdesc]
      rfl
    · have hother : activeDesc params = !col.defaultDesc := by
        cases h : activeDesc params <;> cases h' : col.defaultDesc <;> simp_all
      refine ⟨_, by rw [if_neg hdesc, follow_withParams], ?_⟩
      rw [stateOf_unsorted, TableState.choose, hstate, hother, clickColumn, if_neg (by simp), if_pos rfl]
      rfl
  · have hstate : ∀ desc, (stateOf params).sort ≠ some (col, desc) := by
      intro desc h
      obtain ⟨c, hc, heq⟩ := Option.map_eq_some_iff.1 h
      exact hactive (hc.trans (congrArg some (congrArg Prod.fst heq)))
    refine ⟨_, by rw [if_pos hactive, follow_withParams], ?_⟩
    rw [stateOf_sort, TableState.choose, clickColumn, if_neg (hstate _), if_neg (hstate _)]
    rfl

/-- A family's link keeps the order. -/
theorem stateOf_family (params : SearchParams) (value : Option String) :
    (stateOf (overridden params [("family", value)])).sort = (stateOf params).sort ∧
      (overridden params [("family", value)]).get "family" = value := by
  have hget : ∀ name, name ≠ "family" → name ≠ "nojs" → (overridden params [("family", value)]).get name = params.get name := by
    intro name hfamily hnojs
    rw [get_overridden_ne _ _ (by simpa using hfamily), get_set_ne _ _ hnojs]
  have hactive : activeSort (overridden params [("family", value)]) = activeSort params := by
    unfold activeSort
    rw [hget "sort" (by decide) (by decide)]
  refine ⟨?_, ?_⟩
  · unfold stateOf activeDesc
    rw [hactive, hget "desc" (by decide) (by decide)]
  · cases value with
    | none => exact get_delete_self _ _
    | some v => exact get_set_self _ _ _

/-- A family's link moves the table to that family. -/
theorem follow_family (params : SearchParams) {value : Option String} {family : Option Nat}
    (hvalue : ∀ params' : SearchParams, params'.get "family" = value → familyOf params' = family) :
    ∃ params', follow (familyLink params value) = some params' ∧ stateOf params' = { stateOf params with family := family } := by
  obtain ⟨hsort, hget⟩ := stateOf_family params value
  refine ⟨_, follow_withParams params _, ?_⟩
  have hfamily : (stateOf (overridden params [("family", value)])).family = family := hvalue _ hget
  show TableState.mk (stateOf (overridden params [("family", value)])).sort
    (stateOf (overridden params [("family", value)])).family = _
  rw [hsort, hfamily]

/-- Every link moves the table as its choice says. -/
theorem follow_link (params : SearchParams) (choice : Choice) :
    ∃ params', follow (choice.link params) = some params' ∧ stateOf params' = (stateOf params).choose choice := by
  cases choice with
  | column col => exact follow_column params col
  | all => exact follow_family params fun params' h => by simp [familyOf, h]
  | ipv4 => exact follow_family params fun params' h => by simp [familyOf, h]
  | ipv6 => exact follow_family params fun params' h => by simp [familyOf, h]

/-- The parameters that the links of the table change. -/
def linkNames : List String := ["nojs", "sort", "desc", "family"]

/-- A request that a link of the table leads to. -/
def Linked (params params' : SearchParams) : Prop :=
  params'.get "nojs" = some "1" ∧ ∀ name ∉ linkNames, params'.getAll name = params.getAll name

/-- Overriding sort, direction or family makes a link of the page. -/
theorem linked_overridden (params : SearchParams) {overrides : List (String × Option String)}
    (h : ∀ o ∈ overrides, o.1 ∈ ["sort", "desc", "family"]) : Linked params (overridden params overrides) := by
  refine ⟨?_, fun name hname => ?_⟩
  · rw [get_overridden_ne params overrides fun o ho heq => absurd (heq ▸ h o ho) (by decide)]
    exact get_set_self _ _ _
  · refine getAll_overridden params overrides (fun heq => hname (by rw [heq]; decide)) fun o ho heq => hname ?_
    rw [heq]
    exact List.mem_cons_of_mem _ (h o ho)

/-- The links of the table are those of `withParams`. -/
theorem exists_of_link (params : SearchParams) (choice : Choice) : ∃ overrides : List (String × Option String),
    (∀ o ∈ overrides, o.1 ∈ ["sort", "desc", "family"]) ∧ choice.link params = withParams params overrides := by
  cases choice with
  | column col =>
    show ∃ overrides, _ ∧ headerLink params (activeSort params) (activeDesc params) col = _
    unfold headerLink
    split
    · exact ⟨[("sort", some col.param), ("desc", some (descParam col.defaultDesc))], by simp, rfl⟩
    split
    · exact ⟨[("sort", some col.param), ("desc", some (descParam (!activeDesc params)))], by simp, rfl⟩
    · exact ⟨[("sort", none)], by simp, rfl⟩
  | all => exact ⟨[("family", none)], by simp, rfl⟩
  | ipv4 => exact ⟨[("family", some "4")], by simp, rfl⟩
  | ipv6 => exact ⟨[("family", some "6")], by simp, rfl⟩

/-- And keeps everything else of the request. -/
theorem linked_follow {params params' : SearchParams} {choice : Choice} (h : follow (choice.link params) = some params') :
    Linked params params' := by
  obtain ⟨overrides, hnames, heq⟩ := exists_of_link params choice
  rw [heq, follow_withParams] at h
  cases h
  exact linked_overridden params hnames

end Gwsdb.HomePage
