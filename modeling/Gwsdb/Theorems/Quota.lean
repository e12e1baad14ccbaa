import Gwsdb.Lib.FixedWindow
import Gwsdb.Store.RateLimit

/-!
# The limiter admits exactly the quota

The table has at most one row for a kind and a client, for the window of the last call that was admitted: rows of earlier
windows are pruned, and their texts are the earlier ones because a window is named by the start of its bucket, to the
minute. So the table is a counter in fixed windows for each kind and client (`answerCall_represents`), and admits what such
a counter admits (`quota_exact`).
-/

namespace Gwsdb.Store

open FixedWindow (Counters count step after fresh Ordered answersIn)
open IsoTime
open Keyed (Table)

/-! ## Windows -/

/-- The text of the window of a bucket. -/
def windowText (windowMs bucket : Int) : String := String.ofList (minuteChars (bucket * windowMs))

/-- A window is named by its bucket. -/
theorem rateWindow_eq {now windowMs : Int} (h : FourDigitYear (now / windowMs * windowMs)) :
    rateWindow now windowMs = windowText windowMs (now / windowMs) := by
  unfold rateWindow windowText isoText
  rw [String.toList_ofList, isoChars_eq_minute, List.take_left' (minuteChars_length h)]

/-- The start of a bucket is in the year of its instants. -/
theorem fourDigitYear_start {now windowMs : Int} (hw : windowMs = 60000 ∨ windowMs = 3600000) (h : FourDigitYear now) :
    FourDigitYear (now / windowMs * windowMs) := by
  have hday : day (now / windowMs * windowMs) = day now := by
    unfold day
    rcases hw with rfl | rfl
    · omega
    · omega
  unfold FourDigitYear yearFromTime at h ⊢
  rwa [hday]

/-- A later bucket has a later text. -/
theorem windowText_lt {windowMs a b : Int} (hw : windowMs = 60000 ∨ windowMs = 3600000) (ha : FourDigitYear (a * windowMs))
    (hb : FourDigitYear (b * windowMs)) (h : a < b) : windowText windowMs a < windowText windowMs b := by
  unfold windowText
  rw [String.lt_iff_toList_lt, String.toList_ofList, String.toList_ofList]
  rcases hw with rfl | rfl
  · exact minuteChars_lt ha hb (by omega) (by omega) (by omega)
  · exact minuteChars_lt ha hb (by omega) (by omega) (by omega)

/-! ## The table as counters -/

section
variable (limits : RateLimitKind → RateLimit)

/-- The bucket of a call. -/
def RateLimitCall.bucket (call : RateLimitCall) : Int := call.now / (limits call.kind).windowMs

/-- A call as one of its kind and client in its bucket. -/
def RateLimitCall.counted (call : RateLimitCall) : (RateLimitKind × String) × Int :=
    ((call.kind, call.clientIP), call.bucket limits)

/-- The number of calls that the limit of a kind admits in a bucket. -/
def quota (key : RateLimitKind × String) : Nat := (limits key.1).limit.toNat

/-- The rows are the counts, each under the text of its bucket, where the limit admits calls at all. -/
structure Represents (table : RateLimitTable) (s : Counters (RateLimitKind × String) Int) : Prop where
  rows : ∀ kind client text, table.get? (kind, client, text) =
    ((s (kind, client)).filter fun e => windowText (limits kind).windowMs e.1 = text).map Prod.snd
  years : ∀ kind client b n, s (kind, client) = some (b, n) → FourDigitYear (b * (limits kind).windowMs)
  positive : ∀ kind client b n, s (kind, client) = some (b, n) → 0 < quota limits (kind, client)

/-- The counters have come no further than a call. -/
def Reached (s : Counters (RateLimitKind × String) Int) (call : RateLimitCall) : Prop :=
  ∀ b n, s (call.kind, call.clientIP) = some (b, n) → b ≤ call.bucket limits

variable {limits}

/-- A prune drops the older windows of its kind and client. -/
theorem get?_prune (table : RateLimitTable) (kind kind' : RateLimitKind) (client client' window text : String) :
    (table.prune kind client window).get? (kind', client', text) =
      if kind' = kind ∧ client' = client ∧ text < window then none else table.get? (kind', client', text) := by
  unfold RateLimitTable.prune
  rw [Table.get?_filter]
  by_cases h : kind' = kind ∧ client' = client ∧ text < window
  · rw [if_pos h]
    exact Option.filter_eq_none_iff.2 fun v _ => by simp [h]
  · rw [if_neg h]
    cases table.get? (kind', client', text) with
    | none => rfl
    | some v =>
      have hkeep : (!decide (kind' = kind ∧ client' = client ∧ text < window)) = true := by rw [decide_eq_false h]; rfl
      rw [Option.filter_some, if_pos hkeep]

/-- The row that a counter gives. -/
theorem filter_counter {p : Int × Nat → Prop} [DecidablePred p] (b : Int) (n : Nat) :
    ((some (b, n)).filter fun e => decide (p e)).map Prod.snd = if p (b, n) then some n else none := by
  rw [Option.filter_some]
  by_cases h : p (b, n)
  · rw [if_pos h, if_pos (decide_eq_true h)]
    rfl
  · rw [if_neg h, if_neg (by simpa using h)]
    rfl

/-- After the pruning a kind and client have a row only for the window of the call. -/
theorem get?_pruned {table : RateLimitTable} {s : Counters (RateLimitKind × String) Int} (h : Represents limits table s)
    {call : RateLimitCall} (hyear : FourDigitYear call.now) (hs : Reached limits s call) (text : String) :
    (table.prune call.kind call.clientIP (rateWindow call.now (limits call.kind).windowMs)).get?
      (call.kind, call.clientIP, text) =
      ((s (call.kind, call.clientIP)).filter fun e =>
        e.1 = call.bucket limits ∧ windowText (limits call.kind).windowMs e.1 = text).map Prod.snd := by
  have hw := (limits call.kind).minute_or_hour
  have hstart := fourDigitYear_start hw hyear
  rw [get?_prune, rateWindow_eq hstart, h.rows]
  cases hcount : s (call.kind, call.clientIP) with
  | none =>
    split
    · rfl
    · rfl
  | some e =>
    obtain ⟨b, n⟩ := e
    have hb := h.years _ _ _ _ hcount
    rw [filter_counter, filter_counter]
    by_cases hrow : windowText (limits call.kind).windowMs b = text
    · rw [if_pos hrow]
      rcases lt_or_eq_of_le (hs b n hcount) with hlt | heq
      · -- the row is of an earlier window
        have htext := windowText_lt hw hb hstart hlt
        rw [if_pos ⟨rfl, rfl, hrow ▸ htext⟩, if_neg fun h => hlt.ne h.1]
      · have hnot : ¬text < windowText (limits call.kind).windowMs (call.now / (limits call.kind).windowMs) := by
          rw [← hrow, heq]
          exact lt_irrefl _
        rw [if_neg fun hlt => hnot hlt.2.2, if_pos ⟨heq, hrow⟩]
    · have hgone : ¬(b = call.bucket limits ∧ windowText (limits call.kind).windowMs b = text) := fun h => hrow h.2
      rw [if_neg hrow, ite_self, if_neg hgone]

/-- The count that the limiter reads is that of the counter. -/
theorem count_pruned {table : RateLimitTable} {s : Counters (RateLimitKind × String) Int} (h : Represents limits table s)
    {call : RateLimitCall} (hyear : FourDigitYear call.now) (hs : Reached limits s call) :
    ((table.prune call.kind call.clientIP (rateWindow call.now (limits call.kind).windowMs)).get?
      (call.kind, call.clientIP, rateWindow call.now (limits call.kind).windowMs)).getD 0 =
        count s (call.kind, call.clientIP) (call.bucket limits) := by
  rw [get?_pruned h hyear hs, rateWindow_eq (fourDigitYear_start (limits call.kind).minute_or_hour hyear)]
  unfold count
  cases s (call.kind, call.clientIP) with
  | none => rfl
  | some e =>
    obtain ⟨b, n⟩ := e
    rw [filter_counter]
    show _ = if b = call.bucket limits then n else 0
    by_cases hb : b = call.bucket limits
    · rw [if_pos ⟨hb, by rw [hb, RateLimitCall.bucket]⟩, if_pos hb]
      rfl
    · rw [if_neg fun h => hb h.1, if_neg hb]
      rfl

/-- The limiter reads what the counter has, and compares it with the limit. -/
theorem limit_le_iff (limit : Int) (n : Nat) : limit ≤ (n : Int) ↔ limit.toNat ≤ n := Int.toNat_le.symm

/-- With the counter at the bucket of the call, nothing is pruned. -/
theorem prune_eq_self {table : RateLimitTable} {s : Counters (RateLimitKind × String) Int} (h : Represents limits table s)
    {call : RateLimitCall} (hyear : FourDigitYear call.now)
    (hfull : ∀ b n, s (call.kind, call.clientIP) = some (b, n) → b = call.bucket limits) :
    table.prune call.kind call.clientIP (rateWindow call.now (limits call.kind).windowMs) = table := by
  refine Table.filter_eq_self fun key v hrow => ?_
  obtain ⟨kind, client, text⟩ := key
  rw [rateWindow_eq (fourDigitYear_start (limits call.kind).minute_or_hour hyear), Bool.not_eq_true', decide_eq_false_iff_not]
  rintro ⟨rfl, rfl, hlt⟩
  rw [h.rows] at hrow
  cases hcounter : s (call.kind, call.clientIP) with
  | none =>
    rw [hcounter] at hrow
    cases hrow
  | some e =>
    obtain ⟨b, n⟩ := e
    rw [hcounter, filter_counter] at hrow
    split at hrow
    · rename_i htext
      rw [← htext, hfull b n hcounter] at hlt
      exact lt_irrefl _ hlt
    · cases hrow

/-- A refused call leaves the table as it is. Where calls are admitted at all, a counter that is full is that of the
call's bucket. -/
theorem answerCall_refused {table : RateLimitTable} {s : Counters (RateLimitKind × String) Int} (h : Represents limits table s)
    {call : RateLimitCall} (hyear : FourDigitYear call.now) (hs : Reached limits s call)
    (hlimit : quota limits (call.kind, call.clientIP) ≤ count s (call.kind, call.clientIP) (call.bucket limits)) :
    answerCall limits table call = (false, table) := by
  have hrefused : answerCall limits table call =
      (false, table.prune call.kind call.clientIP (rateWindow call.now (limits call.kind).windowMs)) := by
    refine if_pos ?_
    rw [count_pruned h hyear hs]
    exact (limit_le_iff _ _).2 hlimit
  rw [hrefused, prune_eq_self h hyear fun b n hcounter => ?_]
  by_contra hne
  rw [FixedWindow.count_some hcounter, if_neg hne] at hlimit
  have hpositive := h.positive _ _ _ _ hcounter
  omega

section
variable {table : RateLimitTable} {s : Counters (RateLimitKind × String) Int}
  (h : Represents limits table s) {call : RateLimitCall}
  (hyear : FourDigitYear call.now) (hs : Reached limits s call)
  (hroom : ¬quota limits (call.kind, call.clientIP) ≤ count s (call.kind, call.clientIP) (call.bucket limits))
include h hyear hs hroom

/-- An admitted call adds one to the row of its window. -/
theorem answerCall_of_room : answerCall limits table call =
    (true, (table.prune call.kind call.clientIP (rateWindow call.now (limits call.kind).windowMs)).alter
      (call.kind, call.clientIP, rateWindow call.now (limits call.kind).windowMs) fun row => some (row.elim 1 (· + 1))) := by
  refine if_neg ?_
  rw [count_pruned h hyear hs]
  exact fun hle => hroom ((limit_le_iff _ _).1 hle)

/-- The rows of its kind and client are then the one of its window. -/
theorem get?_admitted (text : String) : (answerCall limits table call).2.get? (call.kind, call.clientIP, text) =
    if windowText (limits call.kind).windowMs (call.bucket limits) = text then
      some (count s (call.kind, call.clientIP) (call.bucket limits) + 1)
    else none := by
  have hw := (limits call.kind).minute_or_hour
  have helim : ∀ row : Option Nat, row.elim 1 (· + 1) = row.getD 0 + 1 := fun row => by
    cases row with
    | none => rfl
    | some n => rfl
  rw [answerCall_of_room h hyear hs hroom, Table.get?_alter, helim, count_pruned h hyear hs, get?_pruned h hyear hs,
    rateWindow_eq (fourDigitYear_start hw hyear)]
  by_cases htext : windowText (limits call.kind).windowMs (call.bucket limits) = text
  · rw [if_pos htext, if_pos (by rw [← htext, RateLimitCall.bucket])]
  · have hne : (call.kind, call.clientIP, text) ≠
        (call.kind, call.clientIP, windowText (limits call.kind).windowMs (call.now / (limits call.kind).windowMs)) := by
      intro heq
      exact htext (congrArg (·.2.2) heq).symm
    rw [if_neg htext, if_neg hne, Option.map_eq_none_iff, Option.filter_eq_none_iff]
    intro e _ htest
    obtain ⟨hbucket, hrow⟩ := of_decide_eq_true htest
    exact htext (hbucket ▸ hrow)

/-- The rows of the others stay. -/
theorem get?_admitted_ne {kind : RateLimitKind} {client : String}
    (hkey : (kind, client) ≠ (call.kind, call.clientIP)) (text : String) :
    (answerCall limits table call).2.get? (kind, client, text) = table.get? (kind, client, text) := by
  have hne : (kind, client, text) ≠ (call.kind, call.clientIP, rateWindow call.now (limits call.kind).windowMs) := by
    intro heq
    exact hkey (Prod.ext (congrArg (·.1) heq) (congrArg (·.2.1) heq))
  rw [answerCall_of_room h hyear hs hroom, Table.get?_alter, if_neg hne, get?_prune,
    if_neg fun hsame => hkey (Prod.ext hsame.1 hsame.2.1)]

/-- An admitted call is counted under its window. -/
theorem answerCall_admitted : (answerCall limits table call).1 = true ∧
    Represents limits (answerCall limits table call).2 (Function.update s (call.kind, call.clientIP)
      (some (call.bucket limits, count s (call.kind, call.clientIP) (call.bucket limits) + 1))) := by
  refine ⟨congrArg Prod.fst (answerCall_of_room h hyear hs hroom), ?_, ?_, ?_⟩
  · intro kind client text
    by_cases hkey : (kind, client) = (call.kind, call.clientIP)
    · obtain ⟨rfl, rfl⟩ := Prod.mk.inj hkey
      rw [get?_admitted h hyear hs hroom, Function.update_self, filter_counter]
    · rw [get?_admitted_ne h hyear hs hroom hkey, Function.update_of_ne hkey, h.rows]
  · intro kind client b n hcounter
    by_cases hkey : (kind, client) = (call.kind, call.clientIP)
    · obtain ⟨rfl, rfl⟩ := Prod.mk.inj hkey
      rw [Function.update_self] at hcounter
      obtain ⟨rfl, -⟩ := Prod.mk.inj (Option.some.inj hcounter)
      exact fourDigitYear_start (limits call.kind).minute_or_hour hyear
    · rw [Function.update_of_ne hkey] at hcounter
      exact h.years _ _ _ _ hcounter
  · intro kind client b n hcounter
    by_cases hkey : (kind, client) = (call.kind, call.clientIP)
    · rw [hkey]
      omega
    · rw [Function.update_of_ne hkey] at hcounter
      exact h.positive _ _ _ _ hcounter

end

/-- The limiter answers as the counter does, its table afterwards holds the counters, and a refusal changes nothing. -/
theorem answerCall_represents {table : RateLimitTable} {s : Counters (RateLimitKind × String) Int} (h : Represents limits table s)
    {call : RateLimitCall} (hyear : FourDigitYear call.now) (hs : Reached limits s call) :
    (answerCall limits table call).1 = (step (quota limits) s (call.counted limits)).1 ∧
      Represents limits (answerCall limits table call).2 (step (quota limits) s (call.counted limits)).2 ∧
      ((answerCall limits table call).1 = false → (answerCall limits table call).2 = table) := by
  by_cases hlimit : quota limits (call.kind, call.clientIP) ≤ count s (call.kind, call.clientIP) (call.bucket limits)
  · have hstep : step (quota limits) s (call.counted limits) = (false, s) := FixedWindow.step_refused hlimit
    rw [answerCall_refused h hyear hs hlimit, hstep]
    exact ⟨rfl, h, fun _ => rfl⟩
  · have hstep := @FixedWindow.step_admitted _ _ _ _ (quota limits) s (call.counted limits) hlimit
    obtain ⟨hanswer, htable⟩ := answerCall_admitted h hyear hs hlimit
    rw [hstep, hanswer]
    exact ⟨rfl, htable, nofun⟩

/-! ## Sequences of calls -/

/-- A later call is in no earlier bucket. -/
theorem bucket_le {a b : RateLimitCall} (hkind : a.kind = b.kind) (h : a.now ≤ b.now) : a.bucket limits ≤ b.bucket limits := by
  have hpositive : 0 < (limits b.kind).windowMs := by
    rcases (limits b.kind).minute_or_hour with hw | hw
    · omega
    · omega
  unfold RateLimitCall.bucket
  rw [hkind]
  exact Int.ediv_le_ediv hpositive h

/-- The buckets of the calls of a kind and client do not decrease. -/
theorem ordered_counted {calls : List RateLimitCall} (hclock : calls.Pairwise fun a b => a.now ≤ b.now) :
    Ordered (calls.map (·.counted limits)) := by
  unfold Ordered
  rw [List.pairwise_map]
  exact hclock.imp fun hle hkey => bucket_le (congrArg Prod.fst hkey) hle

/-- The limiter answers a sequence of calls as the counters do. -/
theorem represents_run {calls : List RateLimitCall} (hclock : calls.Pairwise fun a b => a.now ≤ b.now)
    (hyears : ∀ call ∈ calls, FourDigitYear call.now) {table : RateLimitTable} {s : Counters (RateLimitKind × String) Int}
    (h : Represents limits table s) (hs : ∀ call ∈ calls, Reached limits s call) :
    answersTo limits table calls = FixedWindow.answers (quota limits) s (calls.map (·.counted limits)) ∧
      Represents limits (tableAfter limits table calls) (after (quota limits) s (calls.map (·.counted limits))) := by
  induction calls generalizing table s with
  | nil => exact ⟨rfl, h⟩
  | cons call calls ih =>
    obtain ⟨hfirst, hrest⟩ := List.pairwise_cons.1 hclock
    obtain ⟨hanswer, htable, -⟩ := answerCall_represents h (hyears call List.mem_cons_self) (hs call List.mem_cons_self)
    have hlater : ∀ call' ∈ calls, Reached limits (step (quota limits) s (call.counted limits)).2 call' := by
      intro call' hcall' b n hcounter
      rcases FixedWindow.step_some hcounter with hold | ⟨hnew, -⟩
      · exact hs call' (List.mem_cons_of_mem call hcall') b n hold
      · obtain ⟨hkey, rfl⟩ := Prod.mk.inj hnew
        exact bucket_le (congrArg Prod.fst hkey) (hfirst call' hcall')
    obtain ⟨hanswers, hafter⟩ := ih hrest (fun call' hcall' => hyears call' (List.mem_cons_of_mem call hcall')) htable hlater
    refine ⟨?_, hafter⟩
    rw [answersTo, hanswer, hanswers]
    rfl

/-- The empty table stands for no calls. -/
theorem represents_empty : Represents limits Table.empty fresh where
  rows _ _ _ := rfl
  years _ _ _ _ h := by cases h
  positive _ _ _ _ h := by cases h

/-- Before the first call nothing has been reached. -/
theorem reached_fresh (call : RateLimitCall) : Reached limits fresh call := nofun

variable (limits)

/-- The calls of a kind and a client in a bucket. -/
def RateLimitCall.isIn (kind : RateLimitKind) (client : String) (bucket : Int) (call : RateLimitCall) : Bool :=
  decide (call.kind = kind ∧ call.clientIP = client ∧ call.now / (limits kind).windowMs = bucket)

/-- A call is in a bucket when it is counted there. -/
theorem isIn_eq (kind : RateLimitKind) (client : String) (bucket : Int) (call : RateLimitCall) :
    call.isIn limits kind client bucket = decide (call.counted limits = ((kind, client), bucket)) := by
  refine decide_eq_decide.2 ⟨?_, fun h => ?_⟩
  · rintro ⟨rfl, rfl, rfl⟩
    rfl
  · obtain ⟨hkey, hbucket⟩ := Prod.mk.inj h
    obtain ⟨rfl, rfl⟩ := Prod.mk.inj hkey
    exact ⟨rfl, rfl, hbucket⟩

/-- Of the calls of a kind and a client in a bucket, exactly the first ones are allowed, up to the limit; and a refused call
leaves the table as it was. -/
theorem quota_exact (calls : List RateLimitCall) (hclock : calls.Pairwise fun a b => a.now ≤ b.now)
    (hyears : ∀ call ∈ calls, FourDigitYear call.now) :
    (∀ kind client bucket,
      ((calls.zip (answersTo limits Table.empty calls)).filter fun e => e.1.isIn limits kind client bucket).map Prod.snd =
        List.replicate (min (limits kind).limit.toNat (calls.countP (·.isIn limits kind client bucket))) true ++
          List.replicate (calls.countP (·.isIn limits kind client bucket) - (limits kind).limit.toNat) false) ∧
    ∀ pre call post, calls = pre ++ call :: post → (answerCall limits (tableAfter limits Table.empty pre) call).1 = false →
      (answerCall limits (tableAfter limits Table.empty pre) call).2 = tableAfter limits Table.empty pre := by
  constructor
  · intro kind client bucket
    obtain ⟨hanswers, -⟩ := represents_run hclock hyears represents_empty fun call _ => reached_fresh call
    have hordered : Ordered (calls.map (·.counted limits)) := ordered_counted hclock
    have hexact : _ = List.replicate (min (quota limits (kind, client)) _) true ++ _ :=
      FixedWindow.answersIn_eq hordered (kind, client) bucket
    have hcount : FixedWindow.total (calls.map (·.counted limits)) ((kind, client), bucket) =
        calls.countP (·.isIn limits kind client bucket) := by
      unfold FixedWindow.total
      rw [List.countP_map]
      refine List.countP_congr fun call _ => ?_
      rw [isIn_eq]
      rfl
    rw [hcount, ← hanswers] at hexact
    rw [← show quota limits (kind, client) = (limits kind).limit.toNat from rfl, ← hexact]
    unfold answersIn
    rw [List.zip_map_left, List.filter_map, List.map_map]
    simp only [isIn_eq]
    rfl
  · rintro pre call post rfl hrefused
    obtain ⟨hpre, -, hlast⟩ := List.pairwise_append.1 hclock
    obtain ⟨-, htable⟩ := represents_run hpre (fun c hc => hyears c (List.mem_append_left _ hc)) represents_empty fun c _ =>
      reached_fresh c
    have hreached : Reached limits (after (quota limits) fresh (pre.map (·.counted limits))) call := by
      intro b n hcounter
      obtain ⟨earlier, hearlier, heq⟩ := List.mem_map.1 (FixedWindow.mem_of_after hcounter)
      obtain ⟨hkey, rfl⟩ := Prod.mk.inj heq
      exact bucket_le (congrArg Prod.fst hkey) (hlast earlier hearlier call List.mem_cons_self)
    exact (answerCall_represents htable (hyears call (by simp)) hreached).2.2 hrefused

end

/-- Eleven probes of a client in one minute, and one in the next. -/
def manyProbes : List RateLimitCall :=
  List.replicate 11 ⟨.probe, "192.0.2.1", 1754028000000⟩ ++ [⟨.probe, "192.0.2.1", 1754028060000⟩]

/-- The eleventh is refused. -/
theorem quota_exact_probes : ((manyProbes.zip (answersTo rateLimits Table.empty manyProbes)).filter fun e =>
    e.1.isIn rateLimits .probe "192.0.2.1" 29233800).map Prod.snd = List.replicate 10 true ++ [false] := by
  have hexact := (quota_exact rateLimits manyProbes (by decide) (by decide)).1 .probe "192.0.2.1" 29233800
  exact hexact.trans (by decide)

end Gwsdb.Store
