import Gwsdb.Lemmas.DnsQuery
import Gwsdb.Store.Lookups
import Gwsdb.Store.PtrPipeline

/-!
# Whether the reported TTL is the least

Each lookup keeps a running minimum of the TTLs it matches, with zero for "none yet". So the reported TTL is the least in whatever
order the resolver sends its records exactly when none of them has the TTL zero, or all have (`ttl_least_iff`); of a zero and a
day in this order, it reports the day (`zero_forgotten`).
-/

namespace Gwsdb.Store

open RunningMin (least observe least_stable_iff)
open Gwsdb.Net (DNSAnswer DNSResponse parseMessage reverseName_eq)

variable {τ : Type} [LinearOrder τ] [OrderBot τ]

/-! ## The statement -/

/-- A record counts for `lookupPTR` when it is a PTR record with a name, for the others by its type. -/
def isPTR (a : DoHAnswer τ) : Bool := a.type = 12 && trimDot a.data ≠ ""
def isA (a : DoHAnswer τ) : Bool := a.type = 1
def isAAAA (a : DoHAnswer τ) : Bool := a.type = 28
def isTXT (a : DoHAnswer τ) : Bool := a.type = 16

/-- The TTLs of the records that match. -/
def matchedTTLs (p : DoHAnswer τ → Bool) (answers : List (DoHAnswer τ)) : List τ := (answers.filter p).map (·.TTL)

/-- The time is the least of the TTLs, if there are any. -/
def LeastOf (ts : List τ) (t : τ) : Prop := ts ≠ [] → IsLeast {u | u ∈ ts} t

/-- The lookup reports the least of the TTLs that match, and the same for the answers in every other order. -/
def ReportsLeast {ι : Type} (Order : ι → ι → Prop) (ttls : ι → List τ) (lookup : ι → Except String τ) (answers : ι) : Prop :=
  (∃ t, lookup answers = .ok t ∧ LeastOf (ttls answers) t) ∧ ∀ answers', Order answers' answers → lookup answers' = lookup answers

/-- The answers to both questions, each in another order. -/
def BothPerm (answers' answers : List (DoHAnswer τ) × List (DoHAnswer τ)) : Prop :=
  answers'.1.Perm answers.1 ∧ answers'.2.Perm answers.2

/-! ## The folds -/

/-- A loop that keeps what the matching records give and the running minimum of their TTLs. -/
theorem foldl_answers {p : DoHAnswer τ → Bool} {f : DoHAnswer τ → List String}
    {step : List String × τ → DoHAnswer τ → List String × τ}
    (hstep : ∀ st a, step st a = if p a then (st.1 ++ f a, observe st.2 a.TTL) else st) (answers : List (DoHAnswer τ))
    (st : List String × τ) :
    answers.foldl step st = (st.1 ++ (answers.filter p).flatMap f, (matchedTTLs p answers).foldl observe st.2) := by
  induction answers generalizing st with
  | nil => simp [matchedTTLs]
  | cons a answers ih =>
    rw [List.foldl_cons, ih, hstep]
    unfold matchedTTLs
    by_cases hp : p a = true
    · simp [hp]
    · simp [hp]

omit [LinearOrder τ] [OrderBot τ] in
/-- Where no record gives a string, there is no TTL. -/
theorem matchedTTLs_nil {p : DoHAnswer τ → Bool} {f : DoHAnswer τ → String} {answers : List (DoHAnswer τ)}
    (h : ((answers.filter p).flatMap fun a => [f a]).length = 0) : matchedTTLs p answers = [] := by
  rw [List.length_eq_zero_iff, ← List.map_eq_flatMap, List.map_eq_nil_iff] at h
  rw [matchedTTLs, h, List.map_nil]

/-- The names of an address have the least TTL of the PTR answers. -/
theorem ptrResult_ttl (answers : List (DoHAnswer τ)) :
    (ptrResult (some answers)).ttlSeconds = least (matchedTTLs isPTR answers) := by
  have hstep : ∀ (st : List String × τ) a,
      ptrAnswer st a = if isPTR a then (st.1 ++ [trimDot a.data], observe st.2 a.TTL) else st := by
    intro st a
    unfold ptrAnswer isPTR
    by_cases htype : a.type = 12
    · by_cases hname : trimDot a.data = "" <;> simp [htype, hname]
    · simp [htype]
  have hfold := foldl_answers hstep answers ([], ⊥)
  unfold ptrResult
  simp only [hfold, List.nil_append]
  split
  · rename_i hnone
    rw [matchedTTLs_nil hnone]
    rfl
  · rfl

/-- A text has the least TTL of the TXT answers. -/
theorem txtResult_ttl (answers : List (DoHAnswer τ)) :
    (txtResult (some answers)).ttlSeconds = least (matchedTTLs isTXT answers) := by
  have hstep : ∀ (st : List String × τ) a,
      txtAnswer st a = if isTXT a then (st.1 ++ [unwrapTXT a.data], observe st.2 a.TTL) else st := by
    intro st a
    unfold txtAnswer isTXT
    by_cases htype : a.type = 16 <;> simp [htype]
  have hfold := foldl_answers hstep answers ([], ⊥)
  unfold txtResult
  simp only [hfold, List.nil_append]
  split
  · rename_i hnone
    rw [matchedTTLs_nil hnone]
    rfl
  · rfl

/-- A host has the least TTL of the answers of both families. -/
theorem hostResult_ttl (aAnswers aaaaAnswers : List (DoHAnswer τ)) :
    (hostResult (some aAnswers) (some aaaaAnswers)).ttlSeconds =
        least (matchedTTLs isA aAnswers ++ matchedTTLs isAAAA aaaaAnswers) := by
  have hA : ∀ (st : List String × τ) a, aAnswer st a = if isA a then (st.1 ++ [a.data], observe st.2 a.TTL) else st := by
    intro st a
    unfold aAnswer isA
    by_cases htype : a.type = 1 <;> simp [htype]
  have hAAAA : ∀ (st : List String × τ) a, aaaaAnswer st a = if isAAAA a then
      (st.1 ++ (((Net.normalizeIPAddress a.data.toList).filter fun ip => ':' ∈ ip).map String.ofList).toList, observe st.2 a.TTL)
      else st := by
    intro st a
    unfold aaaaAnswer isAAAA
    by_cases htype : a.type = 28 <;> simp [htype]
  unfold hostResult
  simp only [Option.getD_some, foldl_answers hA, foldl_answers hAAAA]
  rw [least, List.foldl_append]

/-! ## Orders -/

/-- Every order of what records give is that of an order of the records. -/
theorem exists_perm_map {ι κ : Type} (f : ι → κ) (p : ι → Bool) {is : List ι} {ts : List κ} (h : ts.Perm ((is.filter p).map f)) :
    ∃ js : List ι, js.Perm is ∧ (js.filter p).map f = ts := by
  have hmap : List.Forall₂ (fun t i => t = f i) ((is.filter p).map f) (is.filter p) :=
    List.forall₂_map_left_iff.2 (List.forall₂_same.2 fun i _ => rfl)
  obtain ⟨ks, hts, hks⟩ := List.perm_comp_forall₂ h hmap
  have hts' : ts = ks.map f := by
    rw [← List.forall₂_eq_eq_eq, List.forall₂_map_right_iff]
    exact hts
  refine ⟨ks ++ is.filter fun i => !p i, (hks.append_right _).trans (List.filter_append_perm p is), ?_⟩
  have hks' : ks.filter p = ks := List.filter_eq_self.2 fun k hk => (List.mem_filter.1 (hks.mem_iff.1 hk)).2
  rw [List.filter_append, hks', List.filter_filter, hts']
  simp

/-- A lookup that gives the running minimum of two lists of TTLs, one after the other. -/
theorem reportsLeast_iff {ι : Type} {Order : ι → ι → Prop} {lookup : ι → Except String τ} (as bs : ι → List τ) {answers : ι}
    (hlookup : ∀ i, lookup i = .ok (least (as i ++ bs i)))
    (hperm : ∀ i, Order i answers → (as i).Perm (as answers) ∧ (bs i).Perm (bs answers))
    (hall : ∀ as' bs', as'.Perm (as answers) → bs'.Perm (bs answers) → ∃ i, Order i answers ∧ as i = as' ∧ bs i = bs') :
    ReportsLeast Order (fun i => as i ++ bs i) lookup answers ↔
      ⊥ ∉ as answers ++ bs answers ∨ ∀ t ∈ if bs answers = [] then as answers else bs answers, t = ⊥ := by
  rw [← least_stable_iff]
  unfold ReportsLeast LeastOf
  simp only [hlookup, Except.ok.injEq]
  constructor
  · rintro ⟨⟨t, rfl, hleast⟩, hsame⟩
    refine ⟨hleast, fun as' bs' has hbs => ?_⟩
    obtain ⟨i, hi, rfl, rfl⟩ := hall as' bs' has hbs
    exact hsame i hi
  · rintro ⟨hleast, hsame⟩
    refine ⟨⟨_, rfl, hleast⟩, fun i hi => ?_⟩
    obtain ⟨has, hbs⟩ := hperm i hi
    exact hsame _ _ has hbs

/-- The same for one list. -/
theorem reportsLeast_perm_iff {ι : Type} {lookup : List ι → Except String τ} {ttls : List ι → List τ} (f : ι → τ) (p : ι → Bool)
    (httls : ∀ is, ttls is = (is.filter p).map f) (hlookup : ∀ is, lookup is = .ok (least (ttls is))) (answers : List ι) :
    ReportsLeast List.Perm ttls lookup answers ↔ ⊥ ∉ ttls answers ∨ ∀ t ∈ ttls answers, t = ⊥ := by
  have h := @reportsLeast_iff τ _ _ (List ι) List.Perm lookup ttls (fun _ => []) answers ?_ ?_ ?_
  · simpa only [List.append_nil, if_true] using h
  · intro is
    rw [List.append_nil, hlookup]
  · intro is his
    rw [httls, httls]
    exact ⟨(his.filter p).map f, List.Perm.refl _⟩
  · intro as' bs' has hbs
    rw [httls] at has
    obtain ⟨is, his, rfl⟩ := exists_perm_map f p has
    exact ⟨is, his, httls is, hbs.eq_nil.symm⟩

/-! ## The result -/

/-- A body without an error is the answers in it. -/
theorem queryDoH_body {κ : Type} {dohUrl : String} (hurl : dohUrl ≠ "") (answers : List (DoHAnswer κ)) :
    queryDoH dohUrl (.body 0 (some answers)) = .ok (some answers) := by
  rw [queryDoH, if_neg hurl, if_neg (by decide), if_neg (by decide)]
  rfl

/-- With an endpoint and an accepted address, each lookup of an IP or a name, and what is received for a query of a pass, reports
the least of the TTLs that match, in every order of the answers, exactly when none of them is zero or all are; and `lookupHost`,
whose two lists come one after the other, when all of the last one are. -/
theorem ttl_least_iff {dohUrl ip : String} (hurl : dohUrl ≠ "") (hip : Net.isIPAddress ip.toList = true) :
    (∀ answers : List (DoHAnswer τ),
      ReportsLeast List.Perm (matchedTTLs isPTR)
        (fun as => (lookupPTR dohUrl ip (.body 0 (some as))).map (·.ttlSeconds)) answers ↔
        ⊥ ∉ matchedTTLs isPTR answers ∨ ∀ t ∈ matchedTTLs isPTR answers, t = ⊥) ∧
    (∀ answers : List (DoHAnswer τ),
      ReportsLeast List.Perm (matchedTTLs isTXT) (fun as => (lookupTXT dohUrl (.body 0 (some as))).map (·.ttlSeconds)) answers ↔
        ⊥ ∉ matchedTTLs isTXT answers ∨ ∀ t ∈ matchedTTLs isTXT answers, t = ⊥) ∧
    (∀ answers : List (DoHAnswer τ) × List (DoHAnswer τ),
      ReportsLeast BothPerm (fun as => matchedTTLs isA as.1 ++ matchedTTLs isAAAA as.2)
          (fun as => (lookupHost dohUrl (.body 0 (some as.1)) (.body 0 (some as.2))).map (·.ttlSeconds)) answers ↔
        ⊥ ∉ matchedTTLs isA answers.1 ++ matchedTTLs isAAAA answers.2 ∨
          ∀ t ∈ if matchedTTLs isAAAA answers.2 = [] then matchedTTLs isA answers.1 else matchedTTLs isAAAA answers.2, t = ⊥) ∧
    ∀ ips results msg parsed queried, parseMessage msg = .ok parsed → idToIP ips parsed.id = some queried →
      receive ips results msg = results.put queried (lookupOf parsed) ∧
        (ReportsLeast List.Perm (·.map (·.ttl))
          (fun as => .ok (lookupOf { parsed with answers := as }).ttlSeconds) parsed.answers ↔
          0 ∉ parsed.answers.map (·.ttl) ∨ ∀ t ∈ parsed.answers.map (·.ttl), t = 0) := by
  refine ⟨fun answers => ?_, fun answers => ?_, fun answers => ?_, fun ips results msg parsed queried hparsed hqueried => ?_⟩
  · refine reportsLeast_perm_iff (·.TTL) isPTR (fun _ => rfl) (fun as => ?_) answers
    rw [lookupPTR, reverseName_eq hip, queryDoH_body hurl]
    exact congrArg Except.ok (ptrResult_ttl as)
  · refine reportsLeast_perm_iff (·.TTL) isTXT (fun _ => rfl) (fun as => ?_) answers
    rw [lookupTXT, queryDoH_body hurl]
    exact congrArg Except.ok (txtResult_ttl as)
  · refine @reportsLeast_iff τ _ _ (List (DoHAnswer τ) × List (DoHAnswer τ)) BothPerm _ (fun as => matchedTTLs isA as.1)
      (fun as => matchedTTLs isAAAA as.2) answers (fun as => ?_) (fun as has => ?_) ?_
    · rw [lookupHost, queryDoH_body hurl, queryDoH_body hurl]
      exact congrArg Except.ok (hostResult_ttl as.1 as.2)
    · exact ⟨(has.1.filter _).map _, (has.2.filter _).map _⟩
    · intro as' bs' has hbs
      obtain ⟨is, his, rfl⟩ := exists_perm_map (·.TTL) isA has
      obtain ⟨js, hjs, rfl⟩ := exists_perm_map (·.TTL) isAAAA hbs
      exact ⟨(is, js), ⟨his, hjs⟩, rfl, rfl⟩
  · refine ⟨receive_of_parsed hparsed hqueried results, ?_⟩
    refine @reportsLeast_perm_iff Nat _ _ _ _ (·.map (·.ttl)) (·.ttl) (fun _ => true) (fun as => ?_) (fun as => ?_) parsed.answers
    · rw [List.filter_true]
    · show _ = Except.ok (List.foldl observe ⊥ _)
      rw [List.foldl_map]
      rfl

theorem ttl_least_iff_google :
    ReportsLeast List.Perm (matchedTTLs isPTR)
        (fun as => (lookupPTR "https://dns.google/resolve" "8.8.8.8" (.body 0 (some as))).map (·.ttlSeconds))
        [⟨12, 21600, "dns.google."⟩, ⟨5, 60, "dns.google."⟩] ↔
      ⊥ ∉ matchedTTLs isPTR [⟨12, (21600 : Nat), "dns.google."⟩, ⟨5, 60, "dns.google."⟩] ∨
        ∀ t ∈ matchedTTLs isPTR [⟨12, (21600 : Nat), "dns.google."⟩, ⟨5, 60, "dns.google."⟩], t = ⊥ :=
  (ttl_least_iff (by decide) (by decide +kernel)).1 _

/-- Two PTR records, of which the resolver wants one forgotten at once and the other kept for a day: the lookup reports a day,
or zero in the other order. -/
theorem zero_forgotten :
    (lookupPTR "https://dns.google/resolve" "8.8.8.8" (.body 0 (some [⟨12, 0, "a.google."⟩, ⟨12, 86400, "b.google."⟩]))).map
      (·.ttlSeconds) =
        .ok 86400 ∧
      (lookupPTR "https://dns.google/resolve" "8.8.8.8" (.body 0 (some [⟨12, 86400, "b.google."⟩, ⟨12, 0, "a.google."⟩]))).map
        (·.ttlSeconds) = .ok 0 ∧
      ¬ReportsLeast List.Perm (matchedTTLs isPTR)
        (fun as => (lookupPTR "https://dns.google/resolve" "8.8.8.8" (.body 0 (some as))).map (·.ttlSeconds))
        [⟨12, 0, "a.google."⟩, ⟨12, 86400, "b.google."⟩] := by
  have hday : (lookupPTR "https://dns.google/resolve" "8.8.8.8"
      (.body 0 (some [⟨12, 0, "a.google."⟩, ⟨12, 86400, "b.google."⟩]))).map (·.ttlSeconds) = .ok 86400 := by decide +kernel
  refine ⟨hday, by decide +kernel, ?_⟩
  rintro ⟨⟨t, ht, hleast⟩, -⟩
  cases hday.symm.trans ht
  have hle := (hleast (by decide +kernel)).2 (show (0 : Nat) ∈ _ by decide +kernel)
  exact absurd hle (by decide)

end Gwsdb.Store
