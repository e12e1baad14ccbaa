import Gwsdb.Lib.Separator
import Gwsdb.Lemmas.Dates
import Gwsdb.Lemmas.Ingest
import Gwsdb.Store.PtrCache
import Gwsdb.Store.PtrQueries

/-!
# Hostnames in one column

The hostnames of an IP are stored in one text with `; ` between them. A label may contain any bytes, so a name may contain that as
well, and then it comes back as two. All other lists come back as they were (`reads_back_iff`).
-/

namespace Gwsdb.Store

open Separator
open Gwsdb.Net (DNSResponse parseMessage)

/-! ## The statements -/

/-- The names of the PTR answers of a response. -/
def ptrNames (parsed : DNSResponse) : List String := (parsed.answers.filter (·.type = 12)).map (·.data)

/-- The name contains the separator. -/
def HasSeparator (name : String) : Prop := "; ".toList <:+: name.toList

instance (name : String) : Decidable (HasSeparator name) := inferInstanceAs (Decidable (_ <:+: _))

/-- The hostnames of an IP are read back as a list: `getPTR` reads them at some time and never reads others, and so does
`listKnownIPs` whatever its options are. -/
structure ReadsBack (db : Database) (ip : String) (names : List String) : Prop where
  cached : ∃ now got, db.getPTR now ip = .ok (some got)
  getPTR : ∀ now got, db.getPTR now ip = .ok (some got) → got.ptrHostnames = names
  listKnownIPs : ∀ opts, ∀ st ∈ db.listKnownIPs opts, st.ip = ip → st.ptrHostname = names

/-! ## Splitting -/

/-- A character that does not start the separator, read after characters without it, does not complete it. -/
theorem not_infix_cons {c : Char} {part : List Char} (hpart : ¬"; ".toList <:+: part.reverse)
    (hedge : ¬(part.head? = some ';' ∧ c = ' ')) : ¬"; ".toList <:+: (c :: part).reverse := by
  rw [List.reverse_cons, List.infix_concat_iff]
  rintro (hsuffix | hinfix)
  · rw [← List.reverse_prefix, List.reverse_append, List.reverse_reverse] at hsuffix
    have hsep : "; ".toList.reverse = [' ', ';'] := rfl
    rw [hsep, List.reverse_singleton, List.singleton_append, List.cons_prefix_cons] at hsuffix
    obtain ⟨hc, r, hr⟩ := hsuffix
    exact hedge ⟨by rw [← hr]; rfl, hc.symm⟩
  · exact hpart hinfix

/-- The parts of a text, after characters of a part that the separator neither is in nor ends in. -/
theorem parts_free (s part : List Char) (hpart : ¬"; ".toList <:+: part.reverse)
    (hedge : ¬(part.head? = some ';' ∧ s.head? = some ' ')) : ∀ x ∈ splitStrings.parts s part, ¬"; ".toList <:+: x := by
  induction s, part using splitStrings.parts.induct with
  | case1 part =>
    intro x hx
    rw [splitStrings.parts, List.mem_singleton] at hx
    rwa [hx]
  | case2 s part ih =>
    rw [splitStrings.parts]
    exact List.forall_mem_cons.2 ⟨hpart, ih (by decide) (by simp)⟩
  | case3 c s part hcut ih =>
    rw [splitStrings.parts]
    · refine ih (not_infix_cons hpart fun h => hedge ⟨h.1, congrArg some h.2⟩) ?_
      rintro ⟨hc, hs⟩
      obtain ⟨s', rfl⟩ := List.head?_eq_some_iff.1 hs
      exact hcut s' (Option.some.inj hc) rfl
    · exact hcut

/-- A text has a part. -/
theorem parts_ne_nil (s part : List Char) : splitStrings.parts s part ≠ [] := by
  induction s, part using splitStrings.parts.induct with
  | case1 part => simp [splitStrings.parts]
  | case2 s part ih => simp [splitStrings.parts]
  | case3 c s part hcut ih =>
    rw [splitStrings.parts]
    · exact ih
    · exact hcut

/-- The parts joined again are the text. -/
theorem intercalate_parts (s part : List Char) :
    "; ".toList.intercalate (splitStrings.parts s part) = part.reverse ++ s := by
  induction s, part using splitStrings.parts.induct with
  | case1 part => rw [splitStrings.parts, List.intercalate_singleton, List.append_nil]
  | case2 s part ih =>
    rw [splitStrings.parts, List.intercalate_cons_of_ne_nil (parts_ne_nil s []), ih, List.append_assoc]
    rfl
  | case3 c s part hcut ih =>
    rw [splitStrings.parts, ih, List.reverse_cons, List.append_assoc]
    · rfl
    · exact hcut

/-- `splitStrings` splits at every separator. -/
theorem splits_parts : Splits "; ".toList fun s => splitStrings.parts s [] where
  ne_nil := fun s => parts_ne_nil s []
  join := fun s => intercalate_parts s []
  free := fun s => parts_free s [] (by decide) (by simp)

/-- Names that are not empty come back from their column exactly when none of them contains the separator. -/
theorem splitStrings_joinStrings_iff {names : List String} (hne : ∀ n ∈ names, n ≠ "") :
    splitStrings (joinStrings names) = names ↔ ∀ n ∈ names, ¬HasSeparator n := by
  rcases names with _ | ⟨name, names⟩
  · simp [joinStrings, splitStrings]
  have hchars : (joinStrings (name :: names)).toList = "; ".toList.intercalate ((name :: names).map String.toList) :=
    String.toList_intercalate
  have htext : joinStrings (name :: names) ≠ "" := by
    intro hempty
    rw [hempty] at hchars
    have hfirst : name.toList = [] := by
      cases names with
      | nil => simpa using hchars.symm
      | cons n ns =>
        rw [List.map_cons, List.map_cons, List.intercalate_cons_cons] at hchars
        simp at hchars
    exact hne name List.mem_cons_self (String.toList_eq_nil_iff.1 hfirst)
  have hsep : Borderless "; ".toList := borderless_pair (by decide)
  have hne : (name :: names).map String.toList ≠ [] := by simp
  have hiff := splits_parts.split_join_iff hsep hne
  rw [splitStrings, if_neg htext, hchars]
  constructor
  · intro h
    have hparts := congrArg (List.map String.toList) h
    rw [List.map_map] at hparts
    simp only [Function.comp_def, String.toList_ofList, List.map_id'] at hparts
    exact fun n hn => hiff.1 hparts n.toList (List.mem_map_of_mem hn)
  · intro h
    rw [hiff.2 (List.forall_mem_map.2 h), List.map_map]
    simp [Function.comp_def]

/-! ## The names that are saved -/

/-- Removing doubles loses no name. -/
theorem mem_foldl_dedupe {names out : List String} {n : String} :
    n ∈ names.foldl (fun out n => if n ∈ out then out else out ++ [n]) out ↔ n ∈ out ∨ n ∈ names := by
  induction names generalizing out with
  | nil => simp
  | cons name names ih =>
    rw [List.foldl_cons, ih]
    split
    · rename_i hin
      simp only [List.mem_cons]
      constructor
      · rintro (h | h)
        · exact Or.inl h
        · exact Or.inr (Or.inr h)
      · rintro (h | rfl | h)
        · exact Or.inl h
        · exact Or.inl hin
        · exact Or.inr h
    · simp [or_assoc]

/-- `dedupeSorted` keeps the names that are not empty without their trailing dot. -/
theorem mem_dedupeSorted {names : List String} {n : String} :
    n ∈ dedupeSorted names ↔ n ≠ "" ∧ ∃ name ∈ names, trimDot name = n := by
  unfold dedupeSorted
  rw [List.mem_insertionSort, mem_foldl_dedupe]
  simp only [List.not_mem_nil, false_or, List.mem_filter, List.mem_map, decide_eq_true_eq]
  exact and_comm

/-- A trailing dot is not part of a separator. -/
theorem hasSeparator_trimDot (name : String) : HasSeparator (trimDot name) ↔ HasSeparator name := by
  unfold HasSeparator trimDot
  split
  · rename_i hdot
    obtain ⟨body, hbody⟩ := List.getLast?_eq_some_iff.1 hdot
    rw [show (String.ofList name.toList.dropLast).toList = body by rw [String.toList_ofList, hbody, List.dropLast_concat], hbody,
      List.infix_concat_iff]
    refine ⟨Or.inr, fun h => h.resolve_left ?_⟩
    rintro ⟨r, hr⟩
    have hlast := congrArg List.getLast? hr
    rw [List.getLast?_concat, List.getLast?_append] at hlast
    cases hlast
  · rfl

/-- The sorted names have a separator when one of the names has. -/
theorem dedupeSorted_separator {names : List String} :
    (∀ n ∈ dedupeSorted names, ¬HasSeparator n) ↔ ∀ name ∈ names, ¬HasSeparator name := by
  constructor
  · intro h name hname hsep
    have htrim := (hasSeparator_trimDot name).2 hsep
    refine h (trimDot name) (mem_dedupeSorted.2 ⟨?_, name, hname, rfl⟩) htrim
    intro hempty
    rw [hempty] at htrim
    exact absurd htrim (by decide)
  · intro h n hn
    obtain ⟨-, name, hname, rfl⟩ := mem_dedupeSorted.1 hn
    exact mt (hasSeparator_trimDot name).1 (h name hname)

/-- Also for names whose trailing dot was taken off before, as `pipelinePTRQueries` does. -/
theorem trimmed_separator {names : List String} :
    (∀ n ∈ names.map trimDot, ¬HasSeparator n) ↔ ∀ name ∈ names, ¬HasSeparator name := by
  rw [List.forall_mem_map]
  simp only [hasSeparator_trimDot]

/-! ## The row that is saved -/

/-- The row of `ptr_cache` that an entry is saved as. -/
def PTRCacheEntry.row (e : PTRCacheEntry) : PtrRow :=
  ⟨some (joinStrings e.ptrHostnames), e.lookupOk, e.ttlSeconds, (e.checkedAt.map IsoTime.isoText).getD ""⟩

/-- An entry with a time is stored with it. -/
theorem ptrStmts_row {e : PTRCacheEntry} {stmts : List Stmt} (h : ptrStmts e = .ok stmts) :
    ∃ t, e.checkedAt = some t ∧ stmts = [.savePTR e.ip e.row, .touchPTR e.ip (IsoTime.isoText t)] := by
  unfold ptrStmts toSQLiteDateTime toISOString at h
  cases ht : e.checkedAt with
  | none =>
    rw [ht] at h
    cases h
  | some t =>
    rw [ht] at h
    cases h
    exact ⟨t, rfl, by rw [PTRCacheEntry.row, ht]; rfl⟩

namespace Database

/-- Stored entries are put one after the other. -/
theorem ptr_after_entries {entries : List PTRCacheEntry} {bounds : List (List Stmt)}
    (h : List.Forall₂ (fun e stmts => ptrStmts e = .ok stmts) entries bounds) (db : Database) :
    (db.after bounds.flatten).ptr = entries.foldl (fun t e => t.put e.ip e.row) db.ptr := by
  induction h generalizing db with
  | nil => rfl
  | @cons e _ _ _ hstmts _ ih =>
    obtain ⟨t, -, rfl⟩ := ptrStmts_row hstmts
    have hpair : (db.after [.savePTR e.ip e.row, .touchPTR e.ip (IsoTime.isoText t)]).ptr = db.ptr.put e.ip e.row :=
      writePool_ptr _ _ _
    rw [List.flatten_cons, after_append, ih, List.foldl_cons, hpair]

/-- So are those of the chunks. -/
theorem ptr_after_chunks {chunks : List (List PTRCacheEntry)} {bounds : List (List (List Stmt))}
    (h : List.Forall₂ (List.Forall₂ fun e stmts => ptrStmts e = .ok stmts) chunks bounds) (db : Database) :
    (db.after (bounds.flatMap fun statements => .bumpPoolRevision :: statements.flatten)).ptr =
      chunks.flatten.foldl (fun t e => t.put e.ip e.row) db.ptr := by
  induction h generalizing db with
  | nil => rfl
  | cons hchunk _ ih =>
    rw [List.flatMap_cons, after_append, ih, after_cons, ptr_after_entries hchunk, List.flatten_cons, List.foldl_append]
    rfl

end Database

/-- The last entry of an IP is the one that stays. -/
theorem get?_foldl_put {before after : List PTRCacheEntry} {e : PTRCacheEntry} (hlast : ∀ e' ∈ after, e'.ip ≠ e.ip)
    (t : Keyed.Table String PtrRow) :
    ((before ++ e :: after).foldl (fun t e => t.put e.ip e.row) t).get? e.ip = some e.row := by
  rw [List.foldl_append, List.foldl_cons]
  have hput := Keyed.Table.get?_put (before.foldl (fun t e => t.put e.ip e.row) t) e.ip e.ip e.row
  rw [if_pos rfl] at hput
  generalize (before.foldl (fun t e => t.put e.ip e.row) t).put e.ip e.row = t' at hput
  induction after generalizing t' with
  | nil => exact hput
  | cons e' after ih =>
    obtain ⟨hne, hrest⟩ := List.forall_mem_cons.1 hlast
    refine ih hrest (t'.put e'.ip e'.row) ?_
    rw [Keyed.Table.get?_put, if_neg hne.symm]
    exact hput

/-- A batch that was saved leaves the row of the last entry of each IP. -/
theorem ptr_savePTRBatch {before after : List PTRCacheEntry} {e : PTRCacheEntry}
    (hlast : ∀ e' ∈ after, e'.ip ≠ e.ip) {s s' : Site}
    (hsave : (savePTRBatch (before ++ e :: after)).run serve s = (.ok (), s')) :
    s'.db.ptr.get? e.ip = some e.row ∧ ∃ t, e.checkedAt = some t := by
  obtain ⟨bounds, hbounds, rfl⟩ := run_inChunks_ok hsave
  have hflat := forall₂_flatten hbounds
  have hptr := Database.ptr_after_chunks hbounds s.db
  rw [Chunks.chunks_flatten (by decide)] at hflat hptr
  obtain ⟨stmts, -, hstmts⟩ := exists_of_forall₂_mem hflat.flip (List.mem_append_right before List.mem_cons_self)
  obtain ⟨t, ht, -⟩ := ptrStmts_row hstmts
  exact ⟨(congrArg (·.get? e.ip) hptr).trans (get?_foldl_put hlast s.db.ptr), t, ht⟩

/-! ## Reading -/

/-- What is read of a row is its column split. -/
theorem readsBack_of_row {db : Database} {ip : String} {row : PtrRow} (hrow : db.ptr.get? ip = some row)
    (htime : row.checkedAt ≠ "") :
    ReadsBack db ip (splitStrings (row.ptrHostname.getD "")) where
  cached := by
    unfold Database.getPTR fromSQLiteDateTime
    simp only [hrow, Option.bind_some, if_neg htime]
    cases parseDate row.checkedAt.toList with
    | none => exact ⟨0, _, rfl⟩
    | some t => exact ⟨t, _, by simp only [Option.any_some]; rw [if_neg (by simp)]⟩
  getPTR := fun now got h => by
    unfold Database.getPTR fromSQLiteDateTime at h
    simp only [hrow, Option.bind_some, if_neg htime] at h
    split at h
    · cases h
    · cases h
      rfl
  listKnownIPs := fun opts st hst hip => by
    unfold Database.listKnownIPs at hst
    obtain ⟨e, -, rfl⟩ := List.mem_map.1 hst
    have he : e.1 = ip := hip
    simp only [JoinedRow.toIPStatus, Database.joinRow, he, hrow, Option.bind_some]

/-- For the names of every message that parses, saved with the results of other IPs: they are read back by `getPTR` and
`listKnownIPs`, and their column is split into them, exactly when none of them contains the separator. -/
theorem reads_back_iff {msg : List UInt8} {parsed : DNSResponse} (_ : parseMessage msg = .ok parsed) {e : PTRCacheEntry}
    (hnames : e.ptrHostnames = dedupeSorted (ptrNames parsed) ∨ e.ptrHostnames = dedupeSorted ((ptrNames parsed).map trimDot))
    {before after : List PTRCacheEntry} (hlast : ∀ e' ∈ after, e'.ip ≠ e.ip) {s s' : Site}
    (hsave : (savePTRBatch (before ++ e :: after)).run serve s = (.ok (), s')) :
    (ReadsBack s'.db e.ip e.ptrHostnames ↔ ∀ name ∈ ptrNames parsed, ¬HasSeparator name) ∧
      (splitStrings (joinStrings e.ptrHostnames) = e.ptrHostnames ↔ ∀ name ∈ ptrNames parsed, ¬HasSeparator name) := by
  obtain ⟨hrow, t, ht⟩ := ptr_savePTRBatch hlast hsave
  have hread : ReadsBack s'.db e.ip (splitStrings (joinStrings e.ptrHostnames)) := readsBack_of_row hrow (by
    rw [PTRCacheEntry.row, ht]
    exact isoText_ne_empty t)
  have hne : ∀ n ∈ e.ptrHostnames, n ≠ "" := by
    intro n hn
    rcases hnames with hnames | hnames <;> exact (mem_dedupeSorted.1 (hnames ▸ hn)).1
  have hsplit : splitStrings (joinStrings e.ptrHostnames) = e.ptrHostnames ↔ ∀ name ∈ ptrNames parsed, ¬HasSeparator name := by
    rw [splitStrings_joinStrings_iff hne]
    rcases hnames with hnames | hnames
    · rw [hnames, dedupeSorted_separator]
    · rw [hnames, dedupeSorted_separator, trimmed_separator]
  refine ⟨⟨fun h => hsplit.1 ?_, fun h => ?_⟩, hsplit⟩
  · obtain ⟨now, got, hgot⟩ := h.cached
    exact (hread.getPTR now got hgot).symm.trans (h.getPTR now got hgot)
  · rw [hsplit.2 h] at hread
    exact hread

/-! ## A label with the separator in it -/

/-- A PTR record that names the label of the given bytes, for five minutes. -/
def recordOf (label : List UInt8) : List UInt8 :=
  [0, 0, 12, 0, 1, 0, 0, 1, 0x2c, 0, UInt8.ofNat (label.length + 2), UInt8.ofNat label.length] ++ label ++ [0]

/-- The response to query 1 whose answers are the records of labels. -/
def responseOf (labels : List (List UInt8)) : List UInt8 :=
  [0, 1, 0x81, 0x80, 0, 0, 0, UInt8.ofNat labels.length, 0, 0, 0, 0] ++ labels.flatMap recordOf

/-- A site whose pool has 8.8.8.8 since the start of 2025. -/
def googleSite : Site where
  db := Database.empty.after [.poolInsert ⟨"8.8.8.8", false, some "SNI", IsoTime.isoText 1735689600000, 12,
    IsoTime.isoText 1735689600000, true⟩]
  edge := Keyed.Table.empty
  totals := none

/-- The entry of 8.8.8.8 with a list of names, a minute later. -/
def googleEntry (names : List String) : PTRCacheEntry := ⟨"8.8.8.8", names, true, 300, some 1735689660000⟩

/-- What the two responses are parsed to. -/
theorem parse_responseOf : parseMessage (responseOf [[97, 59, 32, 98]]) = .ok ⟨1, 0, [⟨12, 300, "a; b"⟩]⟩ ∧
    parseMessage (responseOf [[99, 100], [97, 59, 98]]) = .ok ⟨1, 0, [⟨12, 300, "cd"⟩, ⟨12, 300, "a;b"⟩]⟩ := by decide +kernel

/-- Two names, one of them with half a separator, saved between the names of two other IPs. -/
theorem reads_back_iff_plain : ∃ before after : PTRCacheEntry, before.ip ≠ "8.8.8.8" ∧ after.ip ≠ "8.8.8.8" ∧
    ReadsBack ((savePTRBatch [before, googleEntry ["a;b", "cd"], after]).run serve googleSite).2.db "8.8.8.8" ["a;b", "cd"] ∧
      splitStrings (joinStrings ["a;b", "cd"]) = ["a;b", "cd"] := by
  refine ⟨{ googleEntry ["x; y"] with ip := "8.8.4.4" }, { googleEntry [] with ip := "8.8.8.9" }, by decide, by decide, ?_⟩
  have hplain : ∀ name ∈ ptrNames ⟨1, 0, [⟨12, 300, "cd"⟩, ⟨12, 300, "a;b"⟩]⟩, ¬HasSeparator name := by decide +kernel
  have hboth := @reads_back_iff (responseOf [[99, 100], [97, 59, 98]]) _ parse_responseOf.2 (googleEntry ["a;b", "cd"])
    (.inl (by decide +kernel)) [{ googleEntry ["x; y"] with ip := "8.8.4.4" }] [{ googleEntry [] with ip := "8.8.8.9" }]
    (by decide) googleSite _ rfl
  exact ⟨hboth.1.2 hplain, hboth.2.2 hplain⟩

/-- The one name `a; b` of a response is read back as the two names `a` and `b`, from the cache and from the pool. -/
theorem name_split : parseMessage (responseOf [[97, 59, 32, 98]]) = .ok ⟨1, 0, [⟨12, 300, "a; b"⟩]⟩ ∧
    dedupeSorted ["a; b"] = ["a; b"] ∧
    ((savePTRBatch [googleEntry ["a; b"]]).run serve googleSite).1 = .ok () ∧
    ((savePTRBatch [googleEntry ["a; b"]]).run serve googleSite).2.db.getPTR 1735689660000 "8.8.8.8" =
      .ok (some (googleEntry ["a", "b"])) ∧
    (((savePTRBatch [googleEntry ["a; b"]]).run serve googleSite).2.db.listKnownIPs ⟨false, none, "", none, false, none⟩).map
      (fun st => (st.ip, st.ptrHostname)) = [("8.8.8.8", ["a", "b"])] ∧
    splitStrings (joinStrings ["a; b"]) ≠ ["a; b"] := by
  refine ⟨parse_responseOf.1, by decide +kernel, rfl, ?_, ?_, by decide +kernel⟩
  · decide +kernel
  · decide +kernel

end Gwsdb.Store
