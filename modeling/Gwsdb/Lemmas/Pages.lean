import Gwsdb.Web.HomePage
import Gwsdb.Web.QueryPage

/-!
# The templates close what they open

Each template of content leaves the reader in content, with the same elements open, whatever its data: literal by literal, and by
the lemma of each template in it. So the frame is read to its end around every such body (`place_pageShell`).
-/

set_option maxRecDepth 100000

namespace Gwsdb.Html

open Markup

/-- The last literal closes what is open. -/
theorem fits_lit {cs : List Char} (h : ∀ elements, through ⟨.content, elements⟩ cs = some ⟨.content, elements⟩) :
    Fits [.lit (String.ofList cs)] := fun elements => place_lit (h elements)

/-- A link to the query page fits, whatever text it is for. -/
theorem queryLink_fits (s : String) : Fits (queryLink s) := by
  intro elements
  refine (place_lit rfl).trans ?_
  refine (place_hole rfl).trans ?_
  refine (place_lit rfl).trans ?_
  refine (place_hole rfl).trans ?_
  exact place_lit rfl

/-- So do several of them, one a line. -/
theorem queryLinks_fits (texts : List String) : Fits ([Piece.lit "<br>"].intercalate (texts.map queryLink)) := by
  refine fits_intercalate (fits_lit fun _ => rfl) fun t ht => ?_
  obtain ⟨s, -, rfl⟩ := List.mem_map.1 ht
  exact queryLink_fits s

/-- The cell of an RTT fits. -/
theorem rttCell_fits (lastRttMs : Int) : Fits (rttCell lastRttMs) := by
  unfold rttCell
  split
  · intro elements
    refine (place_hole rfl).trans ?_
    exact place_lit rfl
  · exact fits_lit fun _ => rfl

/-- The footer fits, with or without a commit. -/
theorem footerHTML_fits (build : BuildInfo) : Fits (footerHTML build) := by
  unfold footerHTML
  split
  · intro elements
    refine (place_lit rfl).trans ?_
    refine (place_hole rfl).trans ?_
    refine (place_lit rfl).trans ?_
    refine (place_hole rfl).trans ?_
    exact place_lit rfl
  · intro elements
    refine (place_lit rfl).trans ?_
    refine (place_lit rfl).trans ?_
    exact place_lit rfl

/-- The version at the end of a URL leaves the reader inside the attribute. -/
theorem place_versionQuery (build : BuildInfo) (name : Name) (elements : List Name) (t : Template) :
    place ⟨.value name, elements⟩ (versionQuery build ++ t) = place ⟨.value name, elements⟩ t := by
  unfold versionQuery
  split
  · simp only [List.cons_append, List.nil_append]
    refine (place_lit rfl).trans ?_
    exact place_hole rfl
  · rfl

/-- The names of a language are plain. -/
theorem place_code (lang : Lang) (name : Name) (elements : List Name) (t : Template) :
    place ⟨.value name, elements⟩ (.lit lang.code :: t) = place ⟨.value name, elements⟩ t := by
  cases lang with
  | en => exact place_lit rfl
  | zh => exact place_lit rfl

/-- The text of the link to the home page is content, in either language. -/
theorem place_home (lang : Lang) (elements : List Name) (t : Template) :
    place ⟨.content, elements⟩ (.lit lang.home :: t) = place ⟨.content, elements⟩ t := by
  cases lang with
  | en => exact place_lit rfl
  | zh => exact place_lit rfl

/-- The text of the link to the query page is content, in either language. -/
theorem place_query (lang : Lang) (elements : List Name) (t : Template) :
    place ⟨.content, elements⟩ (.lit lang.query :: t) = place ⟨.content, elements⟩ t := by
  cases lang with
  | en => exact place_lit rfl
  | zh => exact place_lit rfl

/-- The frame around a body. -/
theorem place_pageShell {opts : Shell} (hhead : Fits opts.extraHead) (hbody : Fits opts.body) :
    place .outside (pageShell opts) = some .outside := by
  simp only [pageShell, List.append_assoc, List.cons_append, List.nil_append]
  refine (place_lit rfl).trans ?_
  refine (place_code _ _ _ _).trans ?_
  refine (place_lit rfl).trans ?_
  refine (place_hole rfl).trans ?_
  refine (place_lit rfl).trans ?_
  refine (place_hole rfl).trans ?_
  refine (place_lit rfl).trans ?_
  refine (place_lit rfl).trans ?_
  refine (place_hole rfl).trans ?_
  refine (place_lit rfl).trans ?_
  refine (hhead.place_append _ _).trans ?_
  refine (place_lit rfl).trans ?_
  refine (place_hole rfl).trans ?_
  refine (place_lit rfl).trans ?_
  refine (place_lit rfl).trans ?_
  refine (place_home _ _ _).trans ?_
  refine (place_lit rfl).trans ?_
  refine (place_query _ _ _).trans ?_
  refine (place_lit rfl).trans ?_
  refine (hbody.place_append _ _).trans ?_
  refine (place_lit rfl).trans ?_
  refine ((footerHTML_fits _).place_append _ _).trans ?_
  exact place_lit rfl

end Gwsdb.Html

namespace Gwsdb.QueryPage

open Gwsdb.Html
open Markup

theorem statusHTML_fits {status reachableLabel unreachableLabel : String}
    (hreachable : Fits [.lit reachableLabel]) (hunreachable : Fits [.lit unreachableLabel]) :
    Fits (statusHTML status reachableLabel unreachableLabel) := by
  unfold statusHTML
  split
  · intro elements
    refine (place_lit rfl).trans ?_
    refine (hreachable.place_append _ _).trans ?_
    exact place_lit rfl
  split
  · intro elements
    refine (place_lit rfl).trans ?_
    refine (hunreachable.place_append _ _).trans ?_
    exact place_lit rfl
  · exact fits_lit fun _ => rfl

/-- A column of the addresses that a hostname resolved to fits. -/
theorem addrCol_fits (failed : Bool) (addrs : List AddrStatus) : Fits (addrCol failed addrs) := by
  unfold addrCol
  split
  · refine fits_flatMap fun a _ elements => ?_
    simp only [List.append_assoc, List.cons_append, List.nil_append]
    refine (place_lit rfl).trans ?_
    refine ((queryLink_fits a.addr).place_append _ _).trans ?_
    refine (place_lit rfl).trans ?_
    refine ((statusHTML_fits (fits_lit fun _ => rfl) (fits_lit fun _ => rfl)).place_append _ _).trans ?_
    exact place_lit rfl
  split
  · exact fits_lit fun _ => rfl
  · exact fits_lit fun _ => rfl

/-- The cell of a place fits. -/
theorem locationCell_fits (data : QueryData) : Fits (locationCell data) := by
  unfold locationCell
  split
  · split
    · intro elements
      refine (place_hole rfl).trans ?_
      refine (place_lit rfl).trans ?_
      exact place_hole rfl
    · exact fits_hole _
  · exact fits_lit fun _ => rfl

/-- The form of a hostname fits, in both forms that the page shows. -/
theorem formRow_fits (form : HostnameForm) : Fits (formRow form) := by
  intro elements
  simp only [formRow, List.append_assoc, List.cons_append, List.nil_append]
  refine (place_lit rfl).trans ?_
  refine ((queryLink_fits _).place_append _ _).trans ?_
  refine (place_lit rfl).trans ?_
  refine ((addrCol_fits _ _).place_append _ _).trans ?_
  refine (place_lit rfl).trans ?_
  refine ((addrCol_fits _ _).place_append _ _).trans ?_
  exact place_lit rfl

/-- The rows about a place fit: the airport between two texts, and the cell of the location up to a third one. -/
theorem location_fits (data : QueryData) {f : Char → Event} {opening middle closing : List Char}
    (h : ∀ elements, ∃ s inner, through ⟨.content, elements⟩ opening = some s ∧ s.mode.hole = some f ∧
      through s middle = some ⟨.content, inner⟩ ∧ through ⟨.content, inner⟩ closing = some ⟨.content, elements⟩) :
    Fits ([.lit (String.ofList opening), .hole (text data.airportCode), .lit (String.ofList middle)] ++ locationCell data ++
      [.lit (String.ofList closing)]) := by
  refine (locationCell_fits data).between fun elements => ?_
  obtain ⟨s, inner, hopening, hhole, hmiddle, hclosing⟩ := h elements
  refine ⟨inner, ?_, place_lit hclosing⟩
  rw [place_lit hopening, place_hole hhole]
  exact place_lit hmiddle

/-- The rows about the place of a hostname fit. -/
theorem hostnameLocation_fits (data : QueryData) : Fits (hostnameLocation data) := by
  unfold hostnameLocation
  split
  · exact location_fits data fun _ => ⟨_, _, rfl, rfl, rfl, rfl⟩
  · exact fits_lit fun _ => rfl

/-- The result for a hostname fits. -/
theorem renderHostnameBranch_fits (data : QueryData) : Fits (renderHostnameBranch data) := by
  have hrows : Fits ([Piece.lit "\n"].intercalate (data.hostnameForms.map formRow)) := by
    refine fits_intercalate (fits_lit fun _ => rfl) fun t ht => ?_
    obtain ⟨form, -, rfl⟩ := List.mem_map.1 ht
    exact formRow_fits form
  intro elements
  simp only [renderHostnameBranch, List.append_assoc, List.cons_append, List.nil_append]
  refine (place_lit rfl).trans ?_
  refine (place_hole rfl).trans ?_
  refine (place_lit rfl).trans ?_
  refine (hrows.place_append _ _).trans ?_
  refine (place_lit rfl).trans ?_
  refine ((hostnameLocation_fits data).place_append _ _).trans ?_
  exact place_lit rfl

/-- The cell of the PTR names fits. -/
theorem ptrCell_fits (data : QueryData) : Fits (ptrCell data) := by
  unfold ptrCell
  split
  · intro elements
    simp only [List.cons_append, List.nil_append]
    refine (place_lit rfl).trans ?_
    refine ((queryLinks_fits data.ptrHostnames).place_append _ _).trans ?_
    exact place_lit rfl
  split
  · exact fits_lit fun _ => rfl
  · exact fits_lit fun _ => rfl

/-- The rows about the place of an IP fit. -/
theorem ipLocation_fits (data : QueryData) : Fits (ipLocation data) := by
  unfold ipLocation
  split
  · exact location_fits data fun _ => ⟨_, _, rfl, rfl, rfl, rfl⟩
  split
  · exact fits_lit fun _ => rfl
  · exact fits_nil

/-- The overview of an IP fits. -/
theorem overview_fits (data : QueryData) : Fits (overview data) := by
  unfold overview
  split
  · intro elements
    simp only [List.append_assoc, List.cons_append, List.nil_append]
    refine (place_lit rfl).trans ?_
    refine ((statusHTML_fits (fits_lit fun _ => rfl) (fits_lit fun _ => rfl)).place_append _ _).trans ?_
    refine (place_lit rfl).trans ?_
    refine (place_hole rfl).trans ?_
    refine (place_lit rfl).trans ?_
    refine (place_hole rfl).trans ?_
    refine (place_lit rfl).trans ?_
    refine (place_hole rfl).trans ?_
    refine (place_lit rfl).trans ?_
    refine ((rttCell_fits data.lastRttMs).place_append _ _).trans ?_
    exact place_lit rfl
  · exact fits_lit fun _ => rfl

/-- The table of checks fits. -/
theorem checksTable_fits (data : QueryData) : Fits (checksTable data) := by
  unfold checksTable
  split
  · exact fits_hole_between fun _ => ⟨_, rfl, rfl, rfl⟩
  · exact fits_nil

/-- The cell with the button for a probe fits. -/
theorem probeCell_fits (data : QueryData) : Fits (probeCell data) := by
  unfold probeCell
  split
  · exact fits_hole_between fun _ => ⟨_, rfl, rfl, rfl⟩
  · exact fits_lit fun _ => rfl

/-- The result for an IP fits. -/
theorem renderIPBranch_fits (data : QueryData) (build : BuildInfo) : Fits (renderIPBranch data build) := by
  intro elements
  simp only [renderIPBranch, List.append_assoc, List.cons_append, List.nil_append]
  refine (place_lit rfl).trans ?_
  refine (place_hole rfl).trans ?_
  refine (place_lit rfl).trans ?_
  refine ((ptrCell_fits data).place_append _ _).trans ?_
  refine (place_lit rfl).trans ?_
  refine ((ipLocation_fits data).place_append _ _).trans ?_
  refine (place_lit rfl).trans ?_
  refine ((overview_fits data).place_append _ _).trans ?_
  refine (place_lit rfl).trans ?_
  refine ((checksTable_fits data).place_append _ _).trans ?_
  refine (place_lit rfl).trans ?_
  refine ((probeCell_fits data).place_append _ _).trans ?_
  refine (place_lit rfl).trans ?_
  refine (place_versionQuery build _ _ _).trans ?_
  exact place_lit rfl

/-- The result of a query fits, of either kind. -/
theorem result_fits (data : QueryData) (build : BuildInfo) : Fits (result data build) := by
  unfold result
  split
  · exact fits_nil
  split
  · exact fits_hole_between fun _ => ⟨_, rfl, rfl, rfl⟩
  split
  · exact (fits_lit fun _ => rfl).append (renderHostnameBranch_fits data)
  · exact (fits_lit fun _ => rfl).append (renderIPBranch_fits data build)

/-- The body of the query page fits. -/
theorem renderQueryBody_fits (data : QueryData) (build : BuildInfo) : Fits (renderQueryBody data build) := by
  intro elements
  simp only [renderQueryBody, List.cons_append, List.nil_append]
  refine (place_lit rfl).trans ?_
  refine (place_hole rfl).trans ?_
  refine (place_lit rfl).trans ?_
  refine ((result_fits data build).place_append _ _).trans ?_
  exact place_lit rfl

end Gwsdb.QueryPage

namespace Gwsdb.HomePage

open Gwsdb.Html
open Gwsdb.Web (SearchParams)
open Markup

theorem statusHTML_fits (status : String) : Fits (statusHTML status) := by
  unfold statusHTML
  split
  · exact fits_lit fun _ => rfl
  split
  · exact fits_lit fun _ => rfl
  · exact fits_nil

/-- The cell of the PTR names of a row fits. -/
theorem ptrCellHTML_fits (ptrList : List String) : Fits (ptrCellHTML ptrList) := by
  unfold ptrCellHTML
  split
  · exact fits_lit fun _ => rfl
  · intro elements
    simp only [List.cons_append, List.nil_append]
    refine (place_lit rfl).trans ?_
    refine ((queryLinks_fits ptrList).place_append _ _).trans ?_
    exact place_lit rfl

/-- The cell of the country of a row fits. -/
theorem countryCellHTML_fits (row : IPRow) : Fits (countryCellHTML row) := by
  refine Fits.append ?_ ?_
  · split
    · intro elements
      refine (place_lit rfl).trans ?_
      refine (place_hole rfl).trans ?_
      refine (place_lit rfl).trans ?_
      refine (place_hole rfl).trans ?_
      refine (place_lit rfl).trans ?_
      refine (place_hole rfl).trans ?_
      exact place_lit rfl
    · exact fits_nil
  · split
    · exact fits_hole _
    · exact fits_lit fun _ => rfl

/-- A choice of a family fits, as a link or as the one that is active. -/
theorem familyOption_fits (params : SearchParams) (label : String) (value : Option String) (active : Bool) :
    Fits (familyOption params label value active) := by
  unfold familyOption
  split
  · exact fits_hole_between fun _ => ⟨_, rfl, rfl, rfl⟩
  · intro elements
    refine (place_lit rfl).trans ?_
    refine (place_hole rfl).trans ?_
    refine (place_lit rfl).trans ?_
    refine (place_hole rfl).trans ?_
    exact place_lit rfl

/-- The choice of the family fits. -/
theorem familyFilterHTML_fits (params : SearchParams) (family : Option Nat) : Fits (familyFilterHTML params family) := by
  intro elements
  simp only [familyFilterHTML, List.append_assoc, List.cons_append, List.nil_append]
  refine (place_lit rfl).trans ?_
  refine ((familyOption_fits _ _ _ _).place_append _ _).trans ?_
  refine (place_lit rfl).trans ?_
  refine ((familyOption_fits _ _ _ _).place_append _ _).trans ?_
  refine (place_lit rfl).trans ?_
  refine ((familyOption_fits _ _ _ _).place_append _ _).trans ?_
  exact place_lit rfl

/-- The arrow of a header fits. -/
theorem arrow_fits (active activeDesc : Bool) : Fits (arrow active activeDesc) := by
  unfold arrow
  split
  · split
    · exact fits_lit fun _ => rfl
    · exact fits_lit fun _ => rfl
  · exact fits_lit fun _ => rfl

/-- The header of a table fits. -/
theorem sortHeaderHTML_fits (params : SearchParams) (activeSort : Option Column) (activeDesc : Bool) :
    Fits (sortHeaderHTML params activeSort activeDesc) := by
  intro elements
  simp only [sortHeaderHTML, List.cons_append, List.nil_append]
  refine (place_lit rfl).trans ?_
  refine (Fits.place_append (fits_intercalate (fits_lit fun _ => rfl) fun t ht => ?_) _ _).trans ?_
  · obtain ⟨col, -, rfl⟩ := List.mem_map.1 ht
    intro elements
    refine (place_lit rfl).trans ?_
    refine (place_hole rfl).trans ?_
    refine (place_lit rfl).trans ?_
    refine (place_hole rfl).trans ?_
    refine (place_lit rfl).trans ?_
    refine ((arrow_fits _ _).place_append _ _).trans ?_
    exact place_lit rfl
  · exact place_lit rfl

/-- The cell of the status of a row fits. -/
theorem rowStatus_fits (status : String) : Fits (rowStatus status) := by
  unfold rowStatus
  split
  · intro elements
    simp only [List.cons_append, List.nil_append]
    refine (place_lit rfl).trans ?_
    refine ((statusHTML_fits status).place_append _ _).trans ?_
    exact place_lit rfl
  · exact fits_nil

/-- The start of a row opens the row and its first cell. -/
theorem place_rowStart (status : String) (elements : List Name) (t : Template) :
    place ⟨.content, elements⟩ (rowStart status ++ t) = place ⟨.content, ['t', 'd'] :: ['t', 'r'] :: elements⟩ t := by
  unfold rowStart
  split
  · exact place_lit rfl
  · exact place_lit rfl

/-- A row fits. -/
theorem rowHTML_fits (row : IPRow) : Fits (rowHTML row) := by
  intro elements
  simp only [rowHTML, List.append_assoc, List.cons_append, List.nil_append]
  refine (place_rowStart row.status elements _).trans ?_
  refine ((rowStatus_fits row.status).place_append _ _).trans ?_
  refine (place_lit rfl).trans ?_
  refine ((queryLink_fits row.ip).place_append _ _).trans ?_
  refine (place_lit rfl).trans ?_
  refine ((ptrCellHTML_fits row.ptrList).place_append _ _).trans ?_
  refine (place_lit rfl).trans ?_
  refine ((countryCellHTML_fits row).place_append _ _).trans ?_
  refine (place_lit rfl).trans ?_
  refine (place_hole rfl).trans ?_
  refine (place_lit rfl).trans ?_
  refine (place_hole rfl).trans ?_
  refine (place_lit rfl).trans ?_
  refine ((rttCell_fits row.lastRttMs).place_append _ _).trans ?_
  exact place_lit rfl

/-- The table fits, in any order. -/
theorem tableHTML_fits (params : SearchParams) (ips : List IPRow) (activeSort : Option Column) (activeDesc : Bool) :
    Fits (tableHTML params ips activeSort activeDesc) := by
  have hrows : Fits ([Piece.lit "\n"].intercalate (ips.map rowHTML)) := by
    refine fits_intercalate (fits_lit fun _ => rfl) fun t ht => ?_
    obtain ⟨row, -, rfl⟩ := List.mem_map.1 ht
    exact rowHTML_fits row
  unfold tableHTML
  split
  · intro elements
    simp only [List.append_assoc, List.cons_append, List.nil_append]
    refine (place_lit rfl).trans ?_
    refine ((sortHeaderHTML_fits _ _ _).place_append _ _).trans ?_
    refine (place_lit rfl).trans ?_
    refine (hrows.place_append _ _).trans ?_
    exact place_lit rfl
  · exact fits_lit fun _ => rfl

/-- The text of the scan mode fits. -/
theorem scanModeHTML_fits (scanMode : String) : Fits (scanModeHTML scanMode) := by
  unfold scanModeHTML
  split
  · exact fits_hole_between fun _ => ⟨_, rfl, rfl, rfl⟩
  · exact fits_nil

/-- The body of the page with the table fits. -/
theorem renderFullTable_fits (params : SearchParams) (ips : List IPRow) (stats : Stats) (scanMode : String)
    (activeSort : Option Column) (activeDesc : Bool) (family : Option Nat) :
    Fits (renderFullTable params ips stats scanMode activeSort activeDesc family) := by
  intro elements
  simp only [renderFullTable, List.append_assoc, List.cons_append, List.nil_append]
  refine (place_lit rfl).trans ?_
  refine ((familyFilterHTML_fits _ _).place_append _ _).trans ?_
  refine (place_lit rfl).trans ?_
  refine ((tableHTML_fits _ _ _ _).place_append _ _).trans ?_
  refine (place_lit rfl).trans ?_
  refine (place_hole rfl).trans ?_
  refine (place_lit rfl).trans ?_
  refine (place_hole rfl).trans ?_
  refine (place_lit rfl).trans ?_
  refine (place_hole rfl).trans ?_
  refine ((scanModeHTML_fits scanMode).place_append _ _).trans ?_
  exact place_lit rfl

/-- A header of the page for scripts fits. -/
theorem shellHeader_fits (col : Column) : Fits (shellHeader col) := by
  intro elements
  cases col
  all_goals
    refine (place_lit rfl).trans ?_
    refine (place_lit rfl).trans ?_
    refine (place_lit rfl).trans ?_
    refine (place_lit rfl).trans ?_
    refine (place_lit rfl).trans ?_
    refine (place_lit rfl).trans ?_
    refine (place_lit rfl).trans ?_
    refine (place_lit rfl).trans ?_
    exact place_lit rfl

/-- The body of the page for scripts fits. -/
theorem jsShellBody_fits (build : BuildInfo) : Fits (jsShellBody build) := by
  have hheaders : Fits (sortColumnOrder.flatMap shellHeader) := fits_flatMap fun col _ => shellHeader_fits col
  intro elements
  simp only [jsShellBody, List.append_assoc, List.cons_append, List.nil_append]
  refine (place_lit rfl).trans ?_
  refine (hheaders.place_append _ _).trans ?_
  refine (place_lit rfl).trans ?_
  refine (place_versionQuery build _ _ _).trans ?_
  exact place_lit rfl

end Gwsdb.HomePage
