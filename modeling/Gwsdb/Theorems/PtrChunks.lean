import Gwsdb.Store.PtrPipeline
import Gwsdb.Theorems.DnsDecode
import Gwsdb.Theorems.PtrEncoding

/-!
# Chunks of the connection

Where the chunks end does not matter to a pass. Every message that parses and carries the id of a query is recorded for its IP,
and when all queries are answered no message can be left that would change anything.
-/

namespace Gwsdb.Store

open Gwsdb.Net
open Keyed (Table)

/-- The messages that parse and carry an id, parsed. -/
def carriers (frames : List (List UInt8)) (id : Nat) : List DNSResponse :=
  (frames.filterMap fun msg => (parseMessage msg).toOption).filter (·.id = id)

/-! ## What messages leave -/

/-- The IP that a message answers for, and the answer. -/
def answered (ips : List String) (msg : List UInt8) : Option (String × Lookup) :=
  (parseMessage msg).toOption.bind fun parsed => (idToIP ips parsed.id).map fun ip => (ip, lookupOf parsed)

/-- Receiving frames puts the answers of those that answer. -/
theorem foldl_receive (ips : List String) (frames : List (List UInt8)) (results : Table String Lookup) :
    frames.foldl (receive ips) results = (frames.filterMap (answered ips)).foldl (fun t a => t.put a.1 a.2) results := by
  induction frames generalizing results with
  | nil => rfl
  | cons msg frames ih =>
    rw [List.foldl_cons, ih]
    cases hparsed : parseMessage msg with
    | error e =>
      have hnone : answered ips msg = none := by rw [answered, hparsed]; rfl
      rw [List.filterMap_cons_none hnone, receive, hparsed]
    | ok parsed =>
      cases hip : idToIP ips parsed.id with
      | none =>
        have hnone : answered ips msg = none := by rw [answered, hparsed, Except.toOption, Option.bind_some, hip]; rfl
        rw [List.filterMap_cons_none hnone, receive, hparsed]
        simp only [hip]
      | some ip =>
        have hsome : answered ips msg = some (ip, lookupOf parsed) := by
          rw [answered, hparsed, Except.toOption, Option.bind_some, hip]
          rfl
        rw [List.filterMap_cons_some hsome, receive_of_parsed hparsed hip, List.foldl_cons]

/-- The queried IPs have each their own id. -/
theorem idToIP_eq_some {ips : List String} (hips : ips.Nodup) {i : Nat} {ip : String} (hip : ips[i]? = some ip) (id : Nat) :
    idToIP ips id = some ip ↔ id = i + 1 := by
  unfold idToIP
  split
  · rename_i hzero
    simp [hzero]
  · rename_i hpos
    constructor
    · intro h
      have hi := (List.getElem?_inj (List.getElem?_eq_some_iff.1 hip).1 hips).1 (hip.trans h.symm)
      omega
    · rintro rfl
      exact hip

/-- An id is that of an IP asked for. -/
theorem idToIP_mem {ips : List String} {id : Nat} {ip : String} (h : idToIP ips id = some ip) : ip ∈ ips := by
  unfold idToIP at h
  split at h
  · cases h
  · exact List.mem_of_getElem? h

/-- The answers for a queried IP are those of the messages that carry its id. -/
theorem answered_filter {ips : List String} (hips : ips.Nodup) {i : Nat} {ip : String} (hip : ips[i]? = some ip)
    (frames : List (List UInt8)) :
    (frames.filterMap (answered ips)).filter (fun a => a.1 = ip) = (carriers frames (i + 1)).map fun parsed =>
        (ip, lookupOf parsed) := by
  induction frames with
  | nil => rfl
  | cons msg frames ih =>
    unfold carriers at ih ⊢
    cases hparsed : parseMessage msg with
    | error e =>
      have hnone : answered ips msg = none := by rw [answered, hparsed]; rfl
      rw [List.filterMap_cons_none hnone, List.filterMap_cons_none (by rw [hparsed]; rfl), ih]
    | ok parsed =>
      rw [@List.filterMap_cons_some _ _ (fun msg => (parseMessage msg).toOption) msg frames parsed (by rw [hparsed]; rfl)]
      by_cases hid : parsed.id = i + 1
      · have hsome : answered ips msg = some (ip, lookupOf parsed) := by
          rw [answered, hparsed, Except.toOption, Option.bind_some, (idToIP_eq_some hips hip _).2 hid]
          rfl
        rw [List.filterMap_cons_some hsome, List.filter_cons_of_pos (by simp), List.filter_cons_of_pos (by simpa using hid), ih]
        rfl
      · have hnot : ∀ a ∈ answered ips msg, a.1 ≠ ip := by
          intro a ha heq
          rw [answered, hparsed, Except.toOption, Option.bind_some] at ha
          obtain ⟨ip', hip', rfl⟩ := Option.map_eq_some_iff.1 ha
          exact hid ((idToIP_eq_some hips hip _).1 (heq ▸ hip'))
        rw [List.filter_cons_of_neg (by simpa using hid), ← ih]
        cases ha : answered ips msg with
        | none => rw [List.filterMap_cons_none ha]
        | some a => rw [List.filterMap_cons_some ha, List.filter_cons_of_neg (by simpa using hnot a ha)]

/-- What is recorded for a queried IP after messages of which at most one carries its id. -/
theorem get?_foldl_receive {ips : List String} (hips : ips.Nodup) {i : Nat} {ip : String} (hip : ips[i]? = some ip)
    {frames : List (List UInt8)} (hone : (carriers frames (i + 1)).length ≤ 1) :
    (frames.foldl (receive ips) Table.empty).get? ip = (carriers frames (i + 1)).head?.map lookupOf := by
  have hput := Table.get?_foldl_alter Prod.fst (fun (a : String × Lookup) _ => a.2)
    (frames.filterMap (answered ips)) Table.empty ip
  rw [answered_filter hips hip] at hput
  rw [foldl_receive]
  refine hput.trans ?_
  match carriers frames (i + 1), hone with
  | [], _ => rfl
  | [parsed], _ => rfl
  | _ :: _ :: _, hone => simp at hone

/-- So is the IP of an answer. -/
theorem answered_mem {ips : List String} {msg : List UInt8} {a : String × Lookup} (h : answered ips msg = some a) :
    a.1 ∈ ips := by
  obtain ⟨parsed, -, hip⟩ := Option.bind_eq_some_iff.1 h
  obtain ⟨ip, hid, rfl⟩ := Option.map_eq_some_iff.1 hip
  exact idToIP_mem hid

/-- An IP that was not asked for gets no answer. -/
theorem get?_foldl_receive_of_notMem {ips : List String} {ip : String} (h : ip ∉ ips) (frames : List (List UInt8)) :
    (frames.foldl (receive ips) Table.empty).get? ip = none := by
  have hput := Table.get?_foldl_alter Prod.fst (fun (a : String × Lookup) _ => a.2)
    (frames.filterMap (answered ips)) Table.empty ip
  have hnil : (frames.filterMap (answered ips)).filter (fun a => a.1 = ip) = [] := by
    refine List.filter_eq_nil_iff.2 fun a ha => ?_
    obtain ⟨msg, -, hmsg⟩ := List.mem_filterMap.1 ha
    simpa using fun heq : a.1 = ip => h (heq ▸ answered_mem hmsg)
  rw [hnil] at hput
  rw [foldl_receive]
  exact hput

/-! ## When all queries are answered -/

/-- The carriers of an id are those in each part. -/
theorem carriers_append (xs ys : List (List UInt8)) (id : Nat) : carriers (xs ++ ys) id = carriers xs id ++ carriers ys id := by
  unfold carriers
  rw [List.filterMap_append, List.filter_append]

/-- With as many results as queries, every query has one. -/
theorem all_answered {ips : List String} {frames : List (List UInt8)}
    (hmany : ips.length ≤ (frames.foldl (receive ips) Table.empty).keys.length) {ip : String} (hip : ip ∈ ips) :
    ((frames.foldl (receive ips) Table.empty).get? ip).isSome := by
  have hsub : (frames.foldl (receive ips) Table.empty).keys ⊆ ips := by
    intro k hk
    by_contra hnot
    rw [Table.mem_keys_iff, get?_foldl_receive_of_notMem hnot] at hk
    cases hk
  have hperm := ((Table.keys_nodup _).subperm hsub).perm_of_length_le hmany
  rw [← Table.mem_keys_iff]
  exact hperm.mem_iff.2 hip

/-- Then messages that come later change nothing, when no id is carried twice. -/
theorem receive_after_all {ips : List String} (hips : ips.Nodup) {xs ys : List (List UInt8)}
    (hone : ∀ i < ips.length, (carriers (xs ++ ys) (i + 1)).length ≤ 1)
    (hmany : ips.length ≤ (xs.foldl (receive ips) Table.empty).keys.length) :
    (xs ++ ys).foldl (receive ips) Table.empty = xs.foldl (receive ips) Table.empty := by
  have hnil : ys.filterMap (answered ips) = [] := by
    refine List.filterMap_eq_nil_iff.2 fun msg hmsg => ?_
    by_contra hne
    obtain ⟨a, ha⟩ := Option.ne_none_iff_exists'.1 hne
    obtain ⟨i, hi⟩ := List.mem_iff_getElem?.1 (answered_mem ha)
    have hlt : i < ips.length := (List.getElem?_eq_some_iff.1 hi).1
    have hboth := hone i hlt
    rw [carriers_append, List.length_append] at hboth
    have hbefore : 0 < (carriers xs (i + 1)).length := by
      have hget := all_answered hmany (answered_mem ha)
      rw [get?_foldl_receive hips hi (by omega), Option.isSome_map, List.isSome_head?] at hget
      exact List.length_pos_iff.2 (by simpa using hget)
    have hlater : 0 < (carriers ys (i + 1)).length := by
      have hmem : a ∈ (ys.filterMap (answered ips)).filter fun b => b.1 = a.1 :=
        List.mem_filter.2 ⟨List.mem_filterMap.2 ⟨msg, hmsg, ha⟩, by simp⟩
      rw [answered_filter hips hi] at hmem
      exact (List.length_map _).symm ▸ List.length_pos_of_mem hmem
    omega
  rw [List.foldl_append, foldl_receive ips ys, hnil]
  rfl

/-! ## The connection -/

/-- A framed message is cut off whole. -/
theorem cutMessage_framed {msg : List UInt8} (h : msg.length < 65536) (t : List UInt8) :
    messages.cut (framed msg ++ t) = some (msg, t) := by
  have hlength := field_setUint16 h [] (msg ++ t)
  rw [List.nil_append, ← List.append_assoc] at hlength
  change cutMessage (framed msg ++ t) = some (msg, t)
  unfold cutMessage framed
  rw [show Dns.field 2 (setUint16 msg.length ++ msg ++ t) 0 = _ from hlength, Option.bind_some,
    if_neg (by simp only [List.length_append, setUint16_length]; omega), List.append_assoc]
  simp [setUint16, Nat.add_comm 2]

/-- The queries of accepted addresses are written. -/
theorem ptrQueries_ok {ips : List String} (h : ∀ ip ∈ ips, isIPAddress ip.toList = true) :
    ∃ queries, ptrQueries ips = .ok queries := by
  have hall : ∀ xs : List (String × Nat), (∀ x ∈ xs, isIPAddress x.1.toList = true) →
      ∃ queries, (xs.mapM fun x => buildPTRQuery (x.2 + 1) x.1.toList) = Except.ok queries := by
    intro xs
    induction xs with
    | nil => exact fun _ => ⟨[], rfl⟩
    | cons x xs ih =>
      intro hxs
      obtain ⟨queries, hqueries⟩ := ih fun y hy => hxs y (List.mem_cons_of_mem x hy)
      rw [List.mapM_cons, hqueries, buildPTRQuery_eq (hxs x List.mem_cons_self)]
      exact ⟨_, rfl⟩
  exact hall _ fun x hx => h x.1 (List.fst_mem_of_mem_zipIdx hx)

/-- Of any messages, of which at most one parses and carries the id of each query, a pass over distinct IPs gets the same results
wherever the chunks end: for each queried IP what the message with its id says, and for every other nothing. -/
theorem results_chunk_free {ips : List String} (hips : ips.Nodup) {frames : List (List UInt8)}
    (hshort : ∀ msg ∈ frames, msg.length < 65536)
    (hone : ∀ i < ips.length, (carriers frames (i + 1)).length ≤ 1) :
    ∃ results : Table String Lookup,
      (∀ chunks : List (List UInt8), chunks.flatten = frames.flatMap framed →
        pipelinePTRQueries ips chunks = (ptrQueries ips).map fun _ => results) ∧
      ((∀ ip ∈ ips, isIPAddress ip.toList = true) → ∃ queries, ptrQueries ips = .ok queries) ∧
      (∀ i ip, ips[i]? = some ip → results.get? ip = (carriers frames (i + 1)).head?.map lookupOf) ∧
      ∀ ip ∉ ips, results.get? ip = none := by
  refine ⟨frames.foldl (receive ips) Table.empty, fun chunks hchunks => ?_, ptrQueries_ok, fun i ip hip => ?_, fun ip hip => ?_⟩
  · have hframes : messages.frames ([] ++ chunks.flatten) = (frames, []) := by
      rw [List.nil_append, hchunks]
      exact Framing.Cutter.frames_flatMap (fun msg hmsg t => cutMessage_framed (hshort msg hmsg) t) rfl
    have hread : messages.read (receive ips) (fun results => ips.length ≤ results.keys.length) Table.empty [] chunks =
        frames.foldl (receive ips) Table.empty := by
      rw [messages.read_eq (receive ips) _ chunks rfl fun xs ys hxs hmany => ?_, hframes]
      rw [hframes] at hxs
      obtain rfl : frames = xs ++ ys := hxs
      exact receive_after_all hips hone (of_decide_eq_true hmany)
    unfold pipelinePTRQueries
    rw [hread]
    cases ptrQueries ips <;> rfl
  · exact get?_foldl_receive hips hip (hone i (List.getElem?_eq_some_iff.1 hip).1)
  · exact get?_foldl_receive_of_notMem hip frames

/-- A message that is too short, the answer for 8.8.8.8, and one that nobody asked for. -/
def googleFrames : List (List UInt8) := [[0, 1], dnsGoogle, 0 :: 2 :: dnsGoogle.drop 2]

/-- A stream with a malformed and an unknown frame. -/
theorem results_chunk_free_google :
    ∃ results : Table String Lookup,
      (∀ chunks : List (List UInt8), chunks.flatten = googleFrames.flatMap framed →
        pipelinePTRQueries ["8.8.8.8"] chunks = (ptrQueries ["8.8.8.8"]).map fun _ => results) ∧
      ((∀ ip ∈ ["8.8.8.8"], isIPAddress ip.toList = true) → ∃ queries, ptrQueries ["8.8.8.8"] = .ok queries) ∧
      (∀ i ip, ["8.8.8.8"][i]? = some ip → results.get? ip = (carriers googleFrames (i + 1)).head?.map lookupOf) ∧
      ∀ ip ∉ ["8.8.8.8"], results.get? ip = none :=
  results_chunk_free (by decide) (by decide) (by decide +kernel)

end Gwsdb.Store
