import Gwsdb.Lemmas.TableRows
import Gwsdb.Theorems.PoolAnswers

/-!
# Reading the pool without scripts

A reader without scripts moves by the links of the pages, and a page may come from the edge cache, where another request has
put it. Its parameters are then those of that request, which had the same ones but for `v`. So every page shows the rows
that its request asks for, of one moment since the request began, and however links are followed, requests ask for what the
clicks say (`no_script_links`).
-/

namespace Gwsdb.HomePage

open Gwsdb.Html (CommitSha pageShell text)
open Gwsdb.Store
open Gwsdb.Web (EdgeCall EdgeCaches EdgeReply SearchParams answerEdge board_signal familyOf ofStore overview
  poolVersionAt poolVersionAt_mono
  start version_of_set)
open Gwsdb.Web.Geo (Place Text)
open Gwsdb.Web.SearchParams (getAll_set_ne get_of_getAll)
open Interleave (Prog Run)
open JsCase (CaseData)
open Keyed (Table)
open Markup (Piece)
open Transition (run)

/-! ## Links of a page -/

/-- What stands in a part stands in the parts put together. -/
theorem mem_intercalate {α : Type} {sep l : List α} {ls : List (List α)} (hl : l ∈ ls) {x : α} (hx : x ∈ l) :
    x ∈ sep.intercalate ls := by
  induction ls with
  | nil => cases hl
  | cons a ls ih =>
    cases ls with
    | nil =>
      rw [List.mem_singleton.mp hl] at hx
      simpa using hx
    | cons b ls =>
      rw [List.intercalate_cons_cons, List.mem_append, List.mem_append]
      rcases List.mem_cons.mp hl with rfl | hl
      · exact Or.inl (Or.inl hx)
      · exact Or.inr (ih hl)

/-- The links that a page is said to have are in its document. -/
theorem link_mem_tablePage {page : TablePage} {choice : Choice} (h : page.offers choice = true) (commitSha : Option CommitSha) :
    Piece.hole (text (choice.link page.params)) ∈ (HomeResponse.table page).html commitSha := by
  have hbody : ∀ piece ∈ renderFullTable page.params page.pool.ips page.pool.stats page.pool.scanMode (activeSort page.params)
      (activeDesc page.params) (familyOf page.params), piece ∈ (HomeResponse.table page).html commitSha := by
    intro piece hpiece
    show piece ∈ pageShell _
    unfold pageShell
    simp only [List.mem_append]
    exact Or.inl (Or.inl (Or.inl (Or.inr hpiece)))
  have hfamily : ∀ piece ∈ familyFilterHTML page.params (familyOf page.params),
      piece ∈ (HomeResponse.table page).html commitSha := by
    intro piece hpiece
    refine hbody piece ?_
    unfold renderFullTable
    simp only [List.mem_append]
    exact Or.inl (Or.inl (Or.inl (Or.inl (Or.inl (Or.inr hpiece)))))
  cases choice with
  | column col =>
    have hips : page.pool.ips ≠ [] := of_decide_eq_true h
    refine hbody _ ?_
    have hheader : Piece.hole (text (Choice.link page.params (.column col))) ∈
        sortHeaderHTML page.params (activeSort page.params) (activeDesc page.params) := by
      unfold sortHeaderHTML
      simp only [List.mem_append]
      refine Or.inl (Or.inr (mem_intercalate (List.mem_map.mpr ⟨col, ?_, rfl⟩) ?_))
      · cases col <;> decide
      · simp [Choice.link]
    have htable : Piece.hole (text (Choice.link page.params (.column col))) ∈
        tableHTML page.params page.pool.ips (activeSort page.params) (activeDesc page.params) := by
      unfold tableHTML
      rw [if_pos hips]
      simp only [List.mem_append]
      exact Or.inl (Or.inl (Or.inl (Or.inr hheader)))
    unfold renderFullTable
    simp only [List.mem_append]
    exact Or.inl (Or.inl (Or.inl (Or.inr htable)))
  | all =>
    have hother : familyOf page.params ≠ none := of_decide_eq_true h
    refine hfamily _ ?_
    simp [familyFilterHTML, familyOption, hother, Choice.link]
  | ipv4 =>
    have hother : familyOf page.params ≠ some 4 := of_decide_eq_true h
    refine hfamily _ ?_
    simp [familyFilterHTML, familyOption, hother, Choice.link]
  | ipv6 =>
    have hother : familyOf page.params ≠ some 6 := of_decide_eq_true h
    refine hfamily _ ?_
    simp [familyFilterHTML, familyOption, hother, Choice.link]

/-! ## Requests with one key -/

/-- The parameters are the same, but for `v`. -/
def SameRequest (params params' : SearchParams) : Prop := ∀ name ≠ "v", params'.getAll name = params.getAll name

/-- A request is the same as itself. -/
theorem SameRequest.refl (params : SearchParams) : SameRequest params params := fun _ _ => rfl

/-- They ask for the same table. -/
theorem SameRequest.stateOf_eq {params params' : SearchParams} (h : SameRequest params params') :
    stateOf params' = stateOf params := by
  have hget : ∀ name ≠ "v", params'.get name = params.get name := fun name hname => get_of_getAll (h name hname)
  have hsort : activeSort params' = activeSort params := by
    unfold activeSort
    rw [hget "sort" (by decide)]
  have hdesc : activeDesc params' = activeDesc params := by
    unfold activeDesc
    rw [hsort, hget "desc" (by decide)]
  have hfamily : familyOf params' = familyOf params := by
    unfold familyOf
    rw [hget "family" (by decide)]
  unfold stateOf
  rw [hsort, hdesc, hfamily]

/-- Requests with one key are the same but for `v`, and had the same version. -/
theorem sameRequest_of_cacheURL {params params' : SearchParams} {v v' : Nat} (h : cacheURL params v = cacheURL params' v') :
    SameRequest params params' ∧ v = v' := by
  refine ⟨fun name hname => ?_, version_of_set h⟩
  have hall := congrArg (fun key : SearchParams => key.getAll name) h
  unfold cacheURL at hall
  simp only [getAll_set_ne _ _ hname] at hall
  exact hall.symm

/-! ## One request -/

section Places

variable (u : CaseData) (airportCodes regionalCodes : Text → Option Place) (r : Run start serve)

/-- A page shows what a request asks for, of a moment from `m` to `n`, and was rendered for the same request but for `v`. -/
structure PageAnswer (m n : Nat) (params : SearchParams) (page : TablePage) : Prop where
  same : SameRequest params page.params
  shows : ∃ k, m ≤ k ∧ k ≤ n ∧ Shows u airportCodes regionalCodes (r.state k).db (stateOf params) page.pool.ips

/-- A page under its key shows what its request asked for, of a moment that had the version of the key or a later one. -/
def KeepsPage (n : Nat) (key : SearchParams) (page : TablePage) : Prop :=
  ∃ v k, key = cacheURL page.params v ∧ k ≤ n ∧ v ≤ (r.state k).db.version ∧
    Shows u airportCodes regionalCodes (r.state k).db (stateOf page.params) page.pool.ips

/-- The edge cache holds such pages only. -/
structure PagesKept (n : Nat) (edge : EdgeCaches TablePage) : Prop where
  cached : ∀ key page, edge.cache.get? key = some page → KeepsPage u airportCodes regionalCodes r n key page
  putting : ∀ key page, (key, page) ∈ edge.puts → KeepsPage u airportCodes regionalCodes r n key page

variable {u airportCodes regionalCodes r}

/-- A page of some moments is one of more. -/
theorem PageAnswer.mono {m n n' : Nat} {params : SearchParams} {page : TablePage} (hn : n ≤ n')
    (h : PageAnswer u airportCodes regionalCodes r m n params page) :
        PageAnswer u airportCodes regionalCodes r m n' params page := by
  obtain ⟨hsame, k, hmk, hkn, hshows⟩ := h
  exact ⟨hsame, k, hmk, hkn.trans hn, hshows⟩

/-- A kept page is one of the run later as well. -/
theorem KeepsPage.mono {n n' : Nat} {key : SearchParams} {page : TablePage} (hn : n ≤ n')
    (h : KeepsPage u airportCodes regionalCodes r n key page) : KeepsPage u airportCodes regionalCodes r n' key page := by
  obtain ⟨v, k, hkey, hkn, hv, hshows⟩ := h
  exact ⟨v, k, hkey, hkn.trans hn, hv, hshows⟩

/-- So are all the kept pages. -/
theorem PagesKept.mono {n n' : Nat} {edge : EdgeCaches TablePage} (hn : n ≤ n')
    (h : PagesKept u airportCodes regionalCodes r n edge) :
    PagesKept u airportCodes regionalCodes r n' edge where
  cached key page hpage := (h.cached key page hpage).mono hn
  putting key page hpage := (h.putting key page hpage).mono hn

/-- A page found under the version of a moment is an answer of that moment or a later one. -/
theorem KeepsPage.answer {m n i : Nat} {params : SearchParams} {page : TablePage} (hm : m ≤ i) (hi : i ≤ n)
    (h : KeepsPage u airportCodes regionalCodes r n (cacheURL params (r.state i).db.version) page) :
    PageAnswer u airportCodes regionalCodes r m n params page := by
  obtain ⟨v, k, hkey, hkn, hv, hshows⟩ := h
  obtain ⟨hsame, rfl⟩ := sameRequest_of_cacheURL hkey
  rw [hsame.stateOf_eq] at hshows
  refine ⟨hsame, ?_⟩
  rcases Nat.le_total i k with hik | hki
  · exact ⟨k, hm.trans hik, hkn, hshows⟩
  · have hversion : poolVersionAt r k = poolVersionAt r i := le_antisymm (poolVersionAt_mono r hki) hv
    exact ⟨i, hm, hi, hshows.of_board ((board_signal r).eq hversion).symm⟩

variable (u airportCodes regionalCodes r)

/-- What is left of a request that began at moment `m`, at a later moment `n`. -/
inductive ServingPage (m n : Nat) (crawler : Bool) (params : SearchParams) : HomeProgram HomeResponse → Prop
  | asked (edgeHit totalsHit : Bool) :
      ServingPage m n crawler params (handleHome u airportCodes regionalCodes crawler params edgeHit totalsHit)
  | matching (i : Nat) (hm : m ≤ i) (hn : i ≤ n) (totalsHit : Bool) :
      ServingPage m n crawler params (cachedPage u airportCodes regionalCodes params (r.state i).db.version totalsHit)
  | loading (i : Nat) (hm : m ≤ i) (hn : i ≤ n) (totalsHit : Bool) :
      ServingPage m n crawler params (renderPage u airportCodes regionalCodes params (r.state i).db.version totalsHit)
  /-- The rows are read; of the totals, `p` is left. The page is put into the edge cache after that. -/
  | counting (i k : Nat) (hm : m ≤ i) (hi : i ≤ k) (hn : k ≤ n) (p : Program Web.Stats) :
      ServingPage m n crawler params ((ofStore p >>= fun stats => (.ret (poolOf u airportCodes regionalCodes (loadOptions params)
        ((r.state k).db.listKnownIPs (loadOptions params).known) stats) : HomeProgram Pool)) >>=
          putPage params (r.state i).db.version)
  | answered (page : TablePage) (h : PageAnswer u airportCodes regionalCodes r m n params page) :
      ServingPage m n crawler params (.ret (.table page))
  | shell (h : isBot crawler params = false) : ServingPage m n crawler params (.ret .shell)

variable {u airportCodes regionalCodes r}

/-- A request being served is served later as well. -/
theorem ServingPage.mono {m n n' : Nat} {crawler : Bool} {params : SearchParams} {p : HomeProgram HomeResponse} (hn : n ≤ n')
    (h : ServingPage u airportCodes regionalCodes r m n crawler params p) :
    ServingPage u airportCodes regionalCodes r m n' crawler params p := by
  cases h with
  | asked edgeHit totalsHit => exact .asked edgeHit totalsHit
  | matching i hm hi totalsHit => exact .matching i hm (hi.trans hn) totalsHit
  | loading i hm hi totalsHit => exact .loading i hm (hi.trans hn) totalsHit
  | counting i k hm hi hk p => exact .counting i k hm hi (hk.trans hn) p
  | answered page h => exact .answered page (h.mono hn)
  | shell h => exact .shell h

/-- The next call of a request, answered at moment `n`, and the caches after it. -/
theorem ServingPage.step {m n : Nat} (hmn : m ≤ n) {crawler : Bool} {params : SearchParams} {c : EdgeCall TablePage}
    {k : EdgeReply TablePage c → HomeProgram HomeResponse}
    (h : ServingPage u airportCodes regionalCodes r m n crawler params (.call c k)) {edge : EdgeCaches TablePage}
    (he : PagesKept u airportCodes regionalCodes r n edge) :
    ServingPage u airportCodes regionalCodes r m n crawler params (k (answerEdge (r.state n) c edge).1) ∧
      PagesKept u airportCodes regionalCodes r n (answerEdge (r.state n) c edge).2 := by
  generalize hp : (Prog.call c k : HomeProgram HomeResponse) = p at h
  cases h with
  | asked edgeHit totalsHit =>
    unfold handleHome at hp
    split at hp
    · cases hp
    · cases hp
      refine ⟨?_, he.cached, he.putting⟩
      show ServingPage u airportCodes regionalCodes r m n crawler params
        (if edgeHit then cachedPage u airportCodes regionalCodes params (r.state n).db.version totalsHit
          else renderPage u airportCodes regionalCodes params (r.state n).db.version totalsHit)
      split
      · exact .matching n hmn (le_refl n) totalsHit
      · exact .loading n hmn (le_refl n) totalsHit
  | matching i hm hn totalsHit =>
    cases hp
    refine ⟨?_, he⟩
    have hreply : (answerEdge (r.state n) (.cacheMatch (cacheURL params (r.state i).db.version)) edge).1 =
      edge.cache.get? (cacheURL params (r.state i).db.version) := rfl
    rw [hreply]
    cases hpage : edge.cache.get? (cacheURL params (r.state i).db.version) with
    | none => exact .loading i hm hn totalsHit
    | some page => exact .answered page ((he.cached _ page hpage).answer hm hn)
  | loading i hm hn totalsHit =>
    cases hp
    exact ⟨.counting i n hm hn (le_refl n) (overview totalsHit), he⟩
  | counting i j hm hij hn q =>
    cases q with
    | ret stats =>
      cases hp
      have hshows : Shows u airportCodes regionalCodes (r.state j).db (stateOf params) (poolOf u airportCodes regionalCodes
        (loadOptions params) ((r.state j).db.listKnownIPs (loadOptions params).known) stats).ips := shows_poolOf _ params stats
      refine ⟨.answered _ ⟨SameRequest.refl params, j, hm.trans hij, hn, hshows⟩, he.cached, fun key page hput => ?_⟩
      rcases List.mem_append.mp hput with hput | hput
      · exact he.putting key page hput
      · obtain ⟨rfl, rfl⟩ := Prod.mk.inj (List.mem_singleton.mp hput)
        exact ⟨_, j, rfl, hn, poolVersionAt_mono r hij, hshows⟩
    | fail e => cases hp
    | call e k' =>
      cases hp
      exact ⟨.counting i j hm hij hn _, he.cached, he.putting⟩
  | answered page h => cases hp
  | shell h => cases hp

/-- The answer that a request has come to. -/
theorem ServingPage.answer {m n : Nat} {crawler : Bool} {params : SearchParams} {res : HomeResponse}
    (hbot : isBot crawler params = true)
    (h : ServingPage u airportCodes regionalCodes r m n crawler params (.ret res)) :
    ∃ page, res = .table page ∧ PageAnswer u airportCodes regionalCodes r m n params page := by
  generalize hp : (Prog.ret res : HomeProgram HomeResponse) = p at h
  cases h with
  | asked edgeHit totalsHit =>
    rw [handleHome, hbot] at hp
    cases hp
  | counting i k hm hi hn q => cases q <;> cases hp
  | answered page h =>
    cases hp
    exact ⟨page, rfl, h⟩
  | shell h =>
    rw [hbot] at h
    cases h
  | _ => cases hp

/-! ## All requests -/

/-- The link that a request was made by is one of a page that another request has got, and leads to its parameters. -/
def Followed (w : Visits) (link : Option (Nat × Choice)) (params : SearchParams) : Prop :=
  ∀ i choice, link = some (i, choice) → ∃ (p : HomeRequest)
    (page : TablePage), w.requests[i]? = some p ∧ p.prog = .ret (.table page) ∧
    follow (choice.link page.params) = some params

/-- The requests that have been answered stay. -/
def Visits.Later (w w' : Visits) : Prop :=
  ∀ (i : Nat) (p : HomeRequest) (res : HomeResponse), w.requests[i]? = some p → p.prog = .ret res → w'.requests[i]? = some p

/-- A link that was followed was followed later as well. -/
theorem Followed.mono {w w' : Visits} {link : Option (Nat × Choice)} {params : SearchParams} (hw : w.Later w')
    (h : Followed w link params) : Followed w' link params := by
  intro i choice hlink
  obtain ⟨p, page, hp, hpage, hfollow⟩ := h i choice hlink
  exact ⟨p, page, hw i p _ hp hpage, hpage, hfollow⟩

variable (u airportCodes regionalCodes r)

/-- The requests are served, and the edge cache holds their pages. -/
structure Served (w : Visits) : Prop where
  edge : PagesKept u airportCodes regionalCodes r w.now w.edge
  requests : ∀ q ∈ w.requests,
    q.began ≤ w.now ∧ ServingPage u airportCodes regionalCodes r q.began w.now q.crawler q.params q.prog ∧
      Followed w q.link q.params

variable {u airportCodes regionalCodes r}

/-- Before the first request everything is served. -/
theorem served_empty : Served u airportCodes regionalCodes r .empty := ⟨⟨nofun, nofun⟩, nofun⟩

/-- A request that begins is served. -/
theorem Served.begin {w : Visits} (hw : Served u airportCodes regionalCodes r w) {crawler : Bool} {params : SearchParams}
    {link : Option (Nat × Choice)} {edgeHit totalsHit : Bool} (hlink : Followed w link params) :
    Served u airportCodes regionalCodes r (w.begin u airportCodes regionalCodes crawler params link edgeHit totalsHit) := by
  have hlater : w.Later (w.begin u airportCodes regionalCodes crawler params link edgeHit totalsHit) := by
    intro i p res hp _
    exact (List.getElem?_append_left (List.getElem?_eq_some_iff.mp hp).1).trans hp
  refine ⟨hw.edge, fun q hq => ?_⟩
  rcases List.mem_append.mp hq with hq | hq
  · obtain ⟨hbegan, hserving, hfollowed⟩ := hw.requests q hq
    exact ⟨hbegan, hserving, hfollowed.mono hlater⟩
  · rw [List.mem_singleton.mp hq]
    exact ⟨le_refl _, .asked edgeHit totalsHit, hlink.mono hlater⟩

/-- Every step keeps requests served. -/
theorem Served.next {w w' : Visits} {a : VisitAct} (h : nextVisit u airportCodes regionalCodes r.state w a = some w')
    (hw : Served u airportCodes regionalCodes r w) : Served u airportCodes regionalCodes r w' := by
  cases a with
  | tick =>
    cases h
    refine ⟨hw.edge.mono (Nat.le_succ _), fun q hq => ?_⟩
    obtain ⟨hbegan, hserving, hfollowed⟩ := hw.requests q hq
    exact ⟨hbegan.trans (Nat.le_succ _), hserving.mono (Nat.le_succ _), hfollowed⟩
  | visit crawler params edgeHit totalsHit =>
    cases h
    exact hw.begin nofun
  | follow i choice edgeHit totalsHit =>
    rw [nextVisit] at h
    split at h
    · rename_i began crawler params link page hget
      split at h
      · obtain ⟨params', hfollow, rfl⟩ := Option.map_eq_some_iff.mp h
        refine hw.begin fun j c hj => ?_
        cases hj
        exact ⟨_, page, hget, rfl, hfollow⟩
      · cases h
    · cases h
  | call i =>
    rw [nextVisit] at h
    split at h
    · rename_i began crawler params link c k hget
      cases h
      obtain ⟨hbegan, hserving, hfollowed⟩ := hw.requests _ (List.mem_of_getElem? hget)
      obtain ⟨hnext, hedge⟩ := hserving.step hbegan hw.edge
      have hlater : w.Later
          { w with
            edge := (answerEdge (r.state w.now) c w.edge).2
            requests := w.requests.set i ⟨began, crawler, params, link, k (answerEdge (r.state w.now) c w.edge).1⟩ } := by
        intro j p res hp hres
        have hij : i ≠ j := by
          rintro rfl
          rw [hget] at hp
          cases hp
          cases hres
        exact (List.getElem?_set_ne hij).trans hp
      refine ⟨hedge, fun q hq => ?_⟩
      rcases List.mem_or_eq_of_mem_set hq with hq | rfl
      · obtain ⟨hbegan', hserving', hfollowed'⟩ := hw.requests q hq
        exact ⟨hbegan', hserving', hfollowed'.mono hlater⟩
      · exact ⟨hbegan, hnext, hfollowed.mono hlater⟩
    · cases h
  | settle k =>
    obtain ⟨⟨key, page⟩, hput, rfl⟩ := Option.map_eq_some_iff.mp h
    have hkept := hw.edge.putting key page (List.mem_of_getElem? hput)
    exact ⟨⟨Table.forall_put hw.edge.cached hkept,
      fun key' page' hpage => hw.edge.putting key' page' (List.mem_of_mem_eraseIdx hpage)⟩, hw.requests⟩
  | drop key =>
    cases h
    exact ⟨⟨fun key' page hpage => hw.edge.cached key' page (Table.get?_of_filter hpage), hw.edge.putting⟩, hw.requests⟩
  | share =>
    cases h
    exact ⟨⟨hw.edge.cached, hw.edge.putting⟩, hw.requests⟩
  | expire =>
    cases h
    exact ⟨⟨hw.edge.cached, hw.edge.putting⟩, hw.requests⟩

/-! ## Links -/

/-- From the page of a request, a reader followed one link after the other and came to the page of another request. -/
inductive Visits.Clicks (w : Visits) (i : Nat) : List Choice → Nat → Prop
  | start : Clicks w i [] i
  | click {choices : List Choice} {j k : Nat} {q : HomeRequest} {choice : Choice} (h : Clicks w i choices j)
      (hq : w.requests[k]? = some q) (hlink : q.link = some (j, choice)) : Clicks w i (choices ++ [choice]) k

/-- Each click moves what a request asks for, and keeps the rest of its parameters but for `v`. -/
theorem Served.clicked {w : Visits} (hw : Served u airportCodes regionalCodes r w) {i k : Nat} {choices : List Choice}
    (hclicks : w.Clicks i choices k) {p q : HomeRequest} (hp : w.requests[i]? = some p) (hq : w.requests[k]? = some q)
    (hbot : isBot p.crawler p.params = true) :
    stateOf q.params = choices.foldl TableState.choose (stateOf p.params) ∧ isBot q.crawler q.params = true ∧
      (choices ≠ [] → q.params.get "nojs" = some "1") ∧
          ∀ name ∉ "v" :: linkNames, q.params.getAll name = p.params.getAll name := by
  induction hclicks generalizing q with
  | start =>
    rw [hp] at hq
    cases hq
    exact ⟨rfl, hbot, fun h => absurd rfl h, fun _ _ => rfl⟩
  | @click choices j k q' choice hbefore hq' hlink ih =>
    rw [hq'] at hq
    cases hq
    obtain ⟨-, -, hfollowed⟩ := hw.requests q' (List.mem_of_getElem? hq')
    obtain ⟨p', page, hp', hpage, hfollow⟩ := hfollowed j choice hlink
    obtain ⟨hstate, hbot', -, hkept⟩ := ih hp'
    obtain ⟨-, hserving, -⟩ := hw.requests p' (List.mem_of_getElem? hp')
    rw [hpage] at hserving
    obtain ⟨page', heq, hanswer⟩ := hserving.answer hbot'
    cases heq
    obtain ⟨params', hfollow', hchosen⟩ := follow_link page.params choice
    rw [hfollow] at hfollow'
    cases hfollow'
    obtain ⟨hnojs, hrest⟩ := linked_follow hfollow
    refine ⟨?_, by simp [isBot, hnojs], fun _ => hnojs, fun name hname => ?_⟩
    · rw [List.foldl_append, ← hstate, ← hanswer.same.stateOf_eq]
      exact hchosen
    · obtain ⟨hv, hlinks⟩ := not_or.mp (mt List.mem_cons.mpr hname)
      rw [hrest name hlinks, hanswer.same name hv]
      exact hkept name hname

/-- In every run of the site, and for every course of requests beside it: whatever links a reader without scripts follows, one
after the other, from the page of a request that gets the table, each leads to a request that asks for what the clicks say and
keeps all other parameters but `v`. What it is answered is a page with the table, be it from the edge cache: its own links go
on from there, and its rows are those of the family, each once, in the order that is asked for, at one moment between the
beginning of the request and now. -/
theorem no_script_links {acts : List VisitAct} {w : Visits}
    (hrun : run (nextVisit u airportCodes regionalCodes r.state) .empty acts = some w)
    {i k : Nat} {choices : List Choice} (hclicks : w.Clicks i choices k) {p q : HomeRequest} (hp : w.requests[i]? = some p)
    (hq : w.requests[k]? = some q) (hbot : isBot p.crawler p.params = true) {res : HomeResponse} (hres : q.prog = .ret res) :
    let asked := choices.foldl TableState.choose (stateOf p.params)
    stateOf q.params = asked ∧ (choices ≠ [] → q.params.get "nojs" = some "1") ∧
      (∀ name ∉ "v" :: linkNames, q.params.getAll name = p.params.getAll name) ∧
      ∃ page, res = .table page ∧ stateOf page.params = asked ∧ (∀ name ≠ "v", page.params.getAll name = q.params.getAll name) ∧
        ∃ m, q.began ≤ m ∧ m ≤ w.now ∧ Shows u airportCodes regionalCodes (r.state m).db asked page.pool.ips := by
  intro asked
  have hw : Served u airportCodes regionalCodes r w := Transition.invariant (fun _ _ _ h hs => Served.next h hs) hrun served_empty
  obtain ⟨hstate, hbot', hnojs, hkept⟩ := hw.clicked hclicks hp hq hbot
  obtain ⟨-, hserving, -⟩ := hw.requests q (List.mem_of_getElem? hq)
  rw [hres] at hserving
  obtain ⟨page, rfl, hanswer⟩ := hserving.answer hbot'
  have hsame : stateOf page.params = asked := hanswer.same.stateOf_eq.trans hstate
  obtain ⟨m, hm, hnow, hshows⟩ := hanswer.shows
  rw [hstate] at hshows
  exact ⟨hstate, hnojs, hkept, page, rfl, hsame, hanswer.same, m, hm, hnow, hshows⟩

end Places

/-! ### A page of another reader -/

def secondResult : Web.ResultBody := { Web.firstResult with ip := "8.8.4.4", rttMs := some 40, checkedAt := some (some 2000) }

/-- Two IPs are checked, one after the other. -/
def twoChecks : Run start serve :=
  Run.scheduled start serve (.prune []) ⟨Database.empty, Table.empty, none⟩
    ([.spawn (.result (some Web.firstResult))] ++ List.replicate 5 (.call 0) ++ [.spawn (.result (some secondResult))] ++
      List.replicate 5 (.call 1))

/-- One reader asks for the table; another one with a `v` is answered with the same page, and clicks
on a header there, and again. -/
def twoReaders : List VisitAct :=
  List.replicate 12 .tick ++ [.visit false [("nojs", "1")] true true] ++ List.replicate 8 (.call 0) ++
    [.settle 0, .visit false [("nojs", "1"), ("v", "5")] true true, .call 1, .call 1, .follow 1 (.column .rtt) true true] ++
    List.replicate 6 (.call 2) ++ [.follow 2 (.column .rtt) true true] ++ List.replicate 6 (.call 3)

/-- The page a request has got. -/
def HomeRequest.page? (q : HomeRequest) : Option TablePage :=
  match q.prog with
  | .ret (.table page) => some page
  | _ => none

/-- A request that has its page has returned it. -/
theorem prog_of_page? {q : HomeRequest} {page : TablePage} (h : q.page? = some page) : q.prog = .ret (.table page) := by
  unfold HomeRequest.page? at h
  split at h
  · rename_i hprog
    cases h
    exact hprog
  · cases h

def noPlaces : Text → Option Place := fun _ => none

/-- What a request of the two readers has come to. -/
def visited {α : Type} (i : Nat) (f : HomeRequest → α) : Option α :=
  (run (nextVisit JsCase.asciiData noPlaces noPlaces twoChecks.state) .empty twoReaders).bind fun w => w.requests[i]?.map f

/-- A second reader follows a link of a page out of the cache. -/
theorem no_script_links_cached : ∃ (w : Visits) (q : HomeRequest) (page : TablePage) (m : Nat),
    run (nextVisit JsCase.asciiData noPlaces noPlaces twoChecks.state) .empty twoReaders = some w ∧
    w.requests[3]? = some q ∧ q.params = [("nojs", "1"), ("sort", "rtt"), ("desc", "0")] ∧ q.prog = .ret (.table page) ∧
    page.pool.ips.map IPRow.ip = ["8.8.8.8", "8.8.4.4"] ∧ stateOf page.params = ⟨some (.rtt, false), none⟩ ∧
    12 ≤ m ∧ Shows JsCase.asciiData noPlaces noPlaces (twoChecks.state m).db ⟨some (.rtt, false), none⟩ page.pool.ips := by
  have hfirst : visited 1 (fun q => (q.crawler, q.params)) = some (false, [("nojs", "1"), ("v", "5")]) := by decide +kernel
  have hsecond : visited 2 HomeRequest.link = some (some (1, .column .rtt)) := by decide +kernel
  have hthird : visited 3 (fun q => (q.began, q.params, q.link)) =
      some (12, [("nojs", "1"), ("sort", "rtt"), ("desc", "0")], some (2, .column .rtt)) := by decide +kernel
  have hpage : (visited 3 HomeRequest.page?).map (fun page => page.map fun page => page.pool.ips.map IPRow.ip) =
      some (some ["8.8.8.8", "8.8.4.4"]) := by decide +kernel
  obtain ⟨w, hrun, hp⟩ := Option.bind_eq_some_iff.mp hfirst
  have hvisited : ∀ {α : Type} (i : Nat) (f : HomeRequest → α), visited i f = w.requests[i]?.map f := by
    intro α i f
    unfold visited
    rw [hrun]
    rfl
  rw [hvisited] at hsecond hthird hpage
  obtain ⟨p, hp, hpdata⟩ := Option.map_eq_some_iff.mp hp
  obtain ⟨p', hp', hlink⟩ := Option.map_eq_some_iff.mp hsecond
  obtain ⟨q, hq, hqdata⟩ := Option.map_eq_some_iff.mp hthird
  rw [hq] at hpage
  obtain ⟨page, hqpage, hips⟩ := Option.map_eq_some_iff.mp (Option.some.inj hpage)
  simp only [Prod.mk.injEq] at hpdata hqdata
  obtain ⟨hcrawler, hparams⟩ := hpdata
  obtain ⟨hbegan, hqparams, hqlink⟩ := hqdata
  have hbot : isBot p.crawler p.params = true := by rw [hcrawler, hparams]; decide
  have hclicks : w.Clicks 1 [.column .rtt, .column .rtt] 3 := .click (.click .start hp' hlink) hq hqlink
  obtain ⟨-, -, -, page', heq, hstate, -, m, hm, -, hshows⟩ := no_script_links hrun hclicks hp hq hbot (prog_of_page? hqpage)
  cases heq
  have hasked : [Choice.column .rtt, Choice.column .rtt].foldl TableState.choose (stateOf p.params) =
      ⟨some (.rtt, false), none⟩ := by
    rw [hparams]
    decide
  rw [hasked] at hstate hshows
  exact ⟨w, q, page, m, hrun, hq, hqparams, prog_of_page? hqpage, hips, hstate, hbegan ▸ hm, hshows⟩

end Gwsdb.HomePage
