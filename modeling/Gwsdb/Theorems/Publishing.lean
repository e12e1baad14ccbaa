import Gwsdb.Lib.Reconcile
import Gwsdb.Web.Publish

/-!
# What publishing leaves when it is cut off

After its list call `syncFamily` makes one call for each record that is missing and then one for each that is too much. It stops
at the first error. So the zone is what the first of these calls have made of it, however the run ends, and the rules for bringing
one set to another apply (`publish_safe`).
-/

namespace Gwsdb.Web

open Interleave (Prog)
open Keyed (Table)
open Reconcile (applied plan Differ)

/-! ## The calls -/

/-- One call, and an error where it does not succeed. -/
def attempt : ApiCall → ApiProgram Unit
  | .list dnsType name => do
    let reply ← Prog.perform (.list dnsType name)
    let _ ← Prog.ofExcept (CFReply.unwrap "list" reply)
  | .create dnsType name content ttl proxied => do
    let reply ← Prog.perform (.create dnsType name content ttl proxied)
    Prog.ofExcept (CFReply.unwrap "create" reply)
  | .delete id => do
    let reply ← Prog.perform (.delete id)
    Prog.ofExcept (CFReply.unwrap "delete" reply)

/-- The IPs that are wanted and have no record. -/
def missing (zone : Zone) (want : List String) : List String := want.eraseDups.filter fun ip => decide (ip ∉ zone.contents)

/-- The records that are not wanted. -/
def extra (zone : Zone) (want : List String) : List DNSRecord := zone.records.filter fun r => decide (r.content ∉ want)

/-- The calls after the list call. -/
def changes (env : PublishEnv) (dnsType : String) (want : List String) (zone : Zone) : List ApiCall :=
  (missing zone want).map (fun ip => .create dnsType env.name ip env.ttl false) ++ (extra zone want).map fun r => .delete r.id

section
variable {E : Type} {R : E → Type} {ε ι : Type}

/-- A loop does its first element, then the others. -/
theorem forM_cons (f : ι → Prog E R ε PUnit) (i : ι) (l : List ι) : (i :: l).forM f = f i >>= fun _ => l.forM f := rfl

/-- A loop over two lists does one, then the other. -/
theorem forM_append (f : ι → Prog E R ε PUnit) (l₁ l₂ : List ι) : (l₁ ++ l₂).forM f = l₁.forM f >>= fun _ => l₂.forM f := by
  induction l₁ with
  | nil => rfl
  | cons i l ih => rw [List.cons_append, forM_cons, forM_cons, ih, Prog.bind_assoc]

/-- A loop over the images is a loop over the elements. -/
theorem forM_map {κ : Type} (f : κ → Prog E R ε PUnit) (g : ι → κ) (l : List ι) : (l.map g).forM f = l.forM fun i => f (g i) := by
  induction l with
  | nil => rfl
  | cons i l ih => rw [List.map_cons, forM_cons, forM_cons, ih]

/-- A loop that skips elements is a loop over the others. -/
theorem forM_filter (p : ι → Bool) (f : ι → Prog E R ε PUnit) (l : List ι) :
    (l.forM fun i => if p i then f i else pure ()) = (l.filter p).forM f := by
  induction l with
  | nil => rfl
  | cons i l ih =>
    by_cases hp : p i = true
    · rw [List.filter_cons_of_pos hp, forM_cons, forM_cons, if_pos hp, ih]
    · rw [List.filter_cons_of_neg hp, forM_cons, if_neg hp, ih]
      rfl

end

/-- No two records have the same content, so each has its entry. -/
theorem haveByContent_entries (zone : Zone) : (haveByContent zone.records).entries =
    zone.records.map fun r => (r.content, r.id) :=
  Table.entries_foldl_alter (fun r : DNSRecord => r.content) (fun r _ => r.id) zone.contents_nodup

/-- A content is missing when no record of the zone has it. -/
theorem haveByContent_isNone (zone : Zone) (ip : String) :
    ((haveByContent zone.records).get? ip).isNone = decide (ip ∉ zone.contents) := by
  have hkeys := Table.mem_keys_iff (haveByContent zone.records) ip
  have hcontents : (haveByContent zone.records).keys = zone.contents := by
    rw [Table.keys, haveByContent_entries, List.map_map]
    rfl
  rw [hcontents] at hkeys
  rw [Bool.eq_iff_iff, decide_eq_true_eq, hkeys]
  simp

/-- What is left of `syncFamily` once the records are listed. -/
def loops (env : PublishEnv) (dnsType : String) (want : List String) (have' : List DNSRecord) : ApiProgram Unit := do
  want.eraseDups.forM fun ip => if ((haveByContent have').get? ip).isNone then createRecord env dnsType ip else pure ()
  (haveByContent have').entries.forM fun e => if e.1 ∉ want then deleteRecord e.2 else pure ()

/-- A family is listed, then its changes are tried. -/
theorem syncFamily_eq (env : PublishEnv) (dnsType : String) (want : List String) : syncFamily env dnsType want =
    .call (.list dnsType env.name) fun reply => Prog.ofExcept (CFReply.unwrap "list" reply) >>= loops env dnsType want := rfl

/-- The two loops try the changes in order. -/
theorem loops_eq (env : PublishEnv) (dnsType : String) (want : List String) (zone : Zone) :
    loops env dnsType want zone.records = (changes env dnsType want zone).forM attempt := by
  have hcreates : (want.eraseDups.forM fun ip =>
      if ((haveByContent zone.records).get? ip).isNone then createRecord env dnsType ip else pure ()) =
      (missing zone want).forM fun ip => attempt (.create dnsType env.name ip env.ttl false) := by
    rw [missing, ← forM_filter]
    simp only [haveByContent_isNone]
    rfl
  have hdeletes : ((haveByContent zone.records).entries.forM fun e => if e.1 ∉ want then deleteRecord e.2 else pure ()) =
      (extra zone want).forM fun r => attempt (.delete r.id) := by
    rw [extra, ← forM_filter, haveByContent_entries, forM_map]
    simp only [decide_eq_true_eq]
    rfl
  rw [loops, changes, forM_append, forM_map, forM_map, ← hcreates, ← hdeletes]

/-! ## Cut off -/

section
variable (ids : IdSource) (outcomes : Nat → Outcome)

/-- The zone after calls that took effect. -/
def afterCalls (calls : List ApiCall) (zone : Zone) : Zone := calls.foldl (fun z e => e.effect ids z) zone

/-- The reply to a call that succeeds is read well, that to any other is an error. -/
theorem ofExcept_reply {τ : Type} (op : String) (result : τ) (o : Outcome) :
    (Prog.ofExcept (CFReply.unwrap op (o.reply result)) : ApiProgram τ) = .ret result ∧ o = .succeeds ∨
      ∃ err, (Prog.ofExcept (CFReply.unwrap op (o.reply result)) : ApiProgram τ) = .fail err ∧ o ≠ .succeeds := by
  cases o with
  | succeeds => exact Or.inl ⟨rfl, rfl⟩
  | fails done errors => exact Or.inr ⟨_, rfl, nofun⟩
  | throws done err => exact Or.inr ⟨_, rfl, nofun⟩

/-- An attempt whose call succeeds goes on; one whose call does not, stops. -/
theorem attempt_eq (e : ApiCall) : ∃ k : ApiReply e → ApiProgram Unit, attempt e = .call e k ∧
    ∀ (zone : Zone) (o : Outcome), k (e.replyOf zone o) = .ret () ∧ o = .succeeds ∨
      ∃ err, k (e.replyOf zone o) = .fail err ∧ o ≠ .succeeds := by
  cases e with
  | list dnsType name =>
    refine ⟨_, rfl, fun zone o => ?_⟩
    rcases ofExcept_reply "list" zone.records o with ⟨hret, ho⟩ | ⟨err, hfail, ho⟩
    · exact Or.inl ⟨congrArg (fun p : ApiProgram (List DNSRecord) => p >>= fun _ => .ret ()) hret, ho⟩
    · exact Or.inr ⟨err, congrArg (fun p : ApiProgram (List DNSRecord) => p >>= fun _ => .ret ()) hfail, ho⟩
  | create dnsType name content ttl proxied => exact ⟨_, rfl, fun _ o => ofExcept_reply "create" () o⟩
  | delete id => exact ⟨_, rfl, fun _ o => ofExcept_reply "delete" () o⟩

/-- After any number of calls the zone is what the first changes make of it. -/
theorem runFor_attempts (calls : List ApiCall) (n : Nat) (s : Cloudflare) :
    ∃ k, ((calls.forM attempt).runFor (serveApi ids outcomes) n s).zone = afterCalls ids (calls.take k) s.zone := by
  induction calls generalizing n s with
  | nil =>
    refine ⟨0, ?_⟩
    cases n <;> rfl
  | cons e calls ih =>
    cases n with
    | zero => exact ⟨0, by rw [Prog.runFor_zero]; rfl⟩
    | succ n =>
      obtain ⟨k, hattempt, hk⟩ := attempt_eq e
      rw [forM_cons, hattempt, Prog.call_bind, Prog.runFor_call_succ]
      rcases hk s.zone (outcomes s.calls) with ⟨hret, hsucceeds⟩ | ⟨err, hfail, -⟩
      · obtain ⟨j, hj⟩ := ih n (serveApi ids outcomes e s).2
        refine ⟨j + 1, ?_⟩
        rw [show (serveApi ids outcomes e s).1 = e.replyOf s.zone (outcomes s.calls) from rfl, hret, Prog.ret_bind, hj]
        simp [serveApi, hsucceeds, Outcome.done, afterCalls]
      · -- the run stops, whether the call took effect or not
        rw [show (serveApi ids outcomes e s).1 = e.replyOf s.zone (outcomes s.calls) from rfl, hfail, Prog.fail_bind]
        have hstop : ∀ t : Cloudflare, (Prog.fail err : ApiProgram Unit).runFor (serveApi ids outcomes) n t =
          t := fun t => by cases n <;> rfl
        rw [hstop]
        cases hdone : (outcomes s.calls).done with
        | true => exact ⟨1, by simp [serveApi, hdone, afterCalls]⟩
        | false => exact ⟨0, by simp [serveApi, hdone, afterCalls]⟩

/-- When all calls succeed, all changes are made, in as many calls. -/
theorem run_attempts (hall : ∀ i, outcomes i = .succeeds) (calls : List ApiCall) (s : Cloudflare) :
    (calls.forM attempt).run (serveApi ids outcomes) s = (.ok (), ⟨afterCalls ids calls s.zone, s.calls + calls.length⟩) := by
  induction calls generalizing s with
  | nil => rfl
  | cons e calls ih =>
    obtain ⟨k, hattempt, hk⟩ := attempt_eq e
    have hret := (hk s.zone (outcomes s.calls)).resolve_right fun ⟨_, _, hne⟩ => hne (hall _)
    have hstate : (serveApi ids outcomes e s).2 = ⟨e.effect ids s.zone, s.calls + 1⟩ := by simp [serveApi, hall, Outcome.done]
    rw [forM_cons, hattempt, Prog.call_bind, Prog.run_call,
      show (serveApi ids outcomes e s).1 = e.replyOf s.zone (outcomes s.calls) from rfl, hret.1, Prog.ret_bind, hstate, ih]
    rw [List.length_cons, Nat.add_right_comm]
    rfl

end

/-! ## The zone after the first changes -/

section
variable (ids : IdSource) (env : PublishEnv) (dnsType : String)

/-- Calls are done one after the other. -/
theorem afterCalls_append (as bs : List ApiCall) (zone : Zone) :
    afterCalls ids (as ++ bs) zone = afterCalls ids bs (afterCalls ids as zone) :=
  List.foldl_append

/-- Records of new contents come after those that are there. -/
theorem afterCalls_create {cs : List String} (hnodup : cs.Nodup) {zone : Zone} (hnew : ∀ c ∈ cs, c ∉ zone.contents) :
    ∃ added : List DNSRecord, added.map (·.content) = cs ∧
      (afterCalls ids (cs.map fun c => .create dnsType env.name c env.ttl false) zone).records = zone.records ++ added := by
  induction cs generalizing zone with
  | nil => exact ⟨[], rfl, (List.append_nil _).symm⟩
  | cons c cs ih =>
    obtain ⟨hc, hcs⟩ := List.nodup_cons.1 hnodup
    have hrecords : ((ApiCall.create dnsType env.name c env.ttl false).effect ids zone).records =
        zone.records ++ [⟨ids.newId zone.records, c⟩] := by
      show (Zone.create zone (ids.newId zone.records) c (ids.fresh zone.records)).records = _
      unfold Zone.create
      rw [dif_neg (hnew c List.mem_cons_self)]
    have hlater : ∀ c' ∈ cs, c' ∉ ((ApiCall.create dnsType env.name c env.ttl false).effect ids zone).contents := by
      intro c' hc' hin
      rw [Zone.contents, hrecords, List.map_append, List.mem_append] at hin
      rcases hin with hin | hin
      · exact hnew c' (List.mem_cons_of_mem c hc') hin
      · rw [List.map_singleton, List.mem_singleton] at hin
        have heq : c' = c := hin
        exact hc (heq ▸ hc')
    obtain ⟨added, hadded, hafter⟩ := ih hcs hlater
    refine ⟨⟨ids.newId zone.records, c⟩ :: added, by rw [List.map_cons, hadded], ?_⟩
    rw [List.map_cons, afterCalls, List.foldl_cons, ← afterCalls, hafter, hrecords, List.append_assoc]
    rfl

/-- The records of the deleted ids are gone, the others stay. -/
theorem afterCalls_delete (rs : List DNSRecord) (zone : Zone) :
    (afterCalls ids (rs.map fun r => .delete r.id) zone).records = zone.records.filter fun r =>
        decide (r.id ∉ rs.map (·.id)) := by
  induction rs generalizing zone with
  | nil => simp [afterCalls]
  | cons r rs ih =>
    rw [List.map_cons, afterCalls, List.foldl_cons, ← afterCalls, ih]
    show (zone.records.filter fun r' => decide (r'.id ≠ r.id)).filter _ = _
    rw [List.filter_filter]
    refine List.filter_congr fun r' _ => ?_
    rw [List.map_cons, ← Bool.decide_and]
    refine decide_eq_decide.2 ?_
    rw [List.mem_cons, not_or]
    exact and_comm

/-- Two records of a zone with one content are the same, and two with one id. -/
theorem Zone.eq_of_content {zone : Zone} {r r' : DNSRecord} (h : r ∈ zone.records) (h' : r' ∈ zone.records)
    (heq : r.content = r'.content) :
    r = r' := List.inj_on_of_nodup_map zone.contents_nodup h h' heq

/-- An id names one record. -/
theorem Zone.eq_of_id {zone : Zone} {r r' : DNSRecord} (h : r ∈ zone.records) (h' : r' ∈ zone.records) (heq : r.id = r'.id) :
    r = r' := List.inj_on_of_nodup_map zone.ids_nodup h h' heq

/-- The zone after the first changes: the records of before and new ones, less some that are not wanted. An id of the
zone and a content of the zone are those of one record. -/
theorem records_after (want : List String) (zone : Zone) (k : Nat) :
    ∃ (grown : Zone) (added : List DNSRecord), grown.records = zone.records ++ added ∧
      added.map (·.content) = (missing zone want).take k ∧
      (afterCalls ids ((changes env dnsType want zone).take k) zone).records =
        grown.records.filter fun r => decide (r.content ∉
            ((extra zone want).take (k - (missing zone want).length)).map (·.content)) := by
  have hnodup : ((missing zone want).take k).Nodup := ((Table.nodup_eraseDups want).filter _).sublist (List.take_sublist _ _)
  have hnew : ∀ c ∈ (missing zone want).take k, c ∉ zone.contents := fun c hc =>
    of_decide_eq_true (List.mem_filter.1 (List.mem_of_mem_take hc)).2
  obtain ⟨added, hadded, hgrown⟩ := afterCalls_create ids env dnsType hnodup hnew
  refine ⟨_, added, hgrown, hadded, ?_⟩
  rw [changes, List.take_append, List.length_map, ← List.map_take, ← List.map_take, afterCalls_append, afterCalls_delete]
  refine List.filter_congr fun r hr => decide_eq_decide.2 (not_congr ?_)
  have hin : ∀ r' ∈ (extra zone want).take (k - (missing zone want).length),
      r' ∈ (afterCalls ids (((missing zone want).take k).map fun c =>
          .create dnsType env.name c env.ttl false) zone).records := by
    intro r' hr'
    rw [hgrown]
    exact List.mem_append_left _ (List.mem_filter.1 (List.mem_of_mem_take hr')).1
  rw [List.mem_map, List.mem_map]
  constructor
  · rintro ⟨r', hr', heq⟩
    exact ⟨r', hr', congrArg (·.content) (Zone.eq_of_id (hin r' hr') hr heq)⟩
  · rintro ⟨r', hr', heq⟩
    exact ⟨r', hr', congrArg (·.id) (Zone.eq_of_content (hin r' hr') hr heq)⟩

/-- The lists of changes are those for the contents. -/
theorem differ (want : List String) (zone : Zone) :
    Differ {c | c ∈ zone.contents} {c | c ∈ want} (missing zone want) ((extra zone want).map (·.content)) where
  missing c := by
    unfold missing
    rw [List.mem_filter, List.mem_eraseDups, decide_eq_true_eq]
    rfl
  extra c := by
    unfold extra Zone.contents
    simp only [List.mem_map, List.mem_filter, decide_eq_true_eq, Set.mem_ofPred_eq]
    constructor
    · rintro ⟨r, ⟨hr, hw⟩, rfl⟩
      exact ⟨⟨r, hr, rfl⟩, hw⟩
    · rintro ⟨⟨r, hr, rfl⟩, hw⟩
      exact ⟨r, ⟨hr, hw⟩, rfl⟩

/-- The contents after the first changes are the set after the first changes of its plan. -/
theorem contents_after (want : List String) (zone : Zone) (k : Nat) :
    {c | c ∈ (afterCalls ids ((changes env dnsType want zone).take k) zone).contents} =
      applied {c | c ∈ zone.contents} ((plan (missing zone want) ((extra zone want).map (·.content))).take k) := by
  obtain ⟨grown, added, hgrown, hadded, hafter⟩ := records_after ids env dnsType want zone k
  rw [Reconcile.applied_take, ← List.map_take, ← hadded]
  ext c
  unfold Zone.contents
  rw [Set.mem_ofPred_eq, hafter, hgrown, Set.mem_sdiff, Set.mem_union]
  simp only [Set.mem_ofPred_eq, List.mem_map, List.mem_filter, List.mem_append, decide_eq_true_eq]
  constructor
  · rintro ⟨r, ⟨hr, hnot⟩, rfl⟩
    exact ⟨hr.imp (fun hr => ⟨r, hr, rfl⟩) fun hr => ⟨r, hr, rfl⟩, hnot⟩
  · rintro ⟨⟨r, hr, rfl⟩ | ⟨r, hr, rfl⟩, hnot⟩
    · exact ⟨r, ⟨Or.inl hr, hnot⟩, rfl⟩
    · exact ⟨r, ⟨Or.inr hr, hnot⟩, rfl⟩

end

/-! ## The reconciliation -/

section
variable (ids : IdSource) (outcomes : Nat → Outcome) (env : PublishEnv) (dnsType : String) (want : List String) (zone : Zone)

/-- The zone when the run is cut off after `n` calls. -/
def cutOff (n : Nat) : Zone := ((syncFamily env dnsType want).runFor (serveApi ids outcomes) n ⟨zone, 0⟩).zone

/-- What holds between the zone before a run and a zone the run passes through. -/
structure Between (want : List String) (before now : Zone) : Prop where
  /-- Wanted records that were there are there still. -/
  kept : ∀ r ∈ before.records, r.content ∈ want → r ∈ now.records
  /-- All else is wanted. -/
  within : ∀ r ∈ now.records, r ∈ before.records ∨ r.content ∈ want
  /-- When a record is gone, all wanted ones are there. -/
  complete : ∀ r ∈ before.records, r ∉ now.records → ∀ ip ∈ want, ip ∈ now.contents
  /-- The name does not lose all its records. -/
  served : want ≠ [] → before.records ≠ [] → now.records ≠ []

/-- After some of the changes the zone lies between what it was and what is wanted. -/
theorem between_of_changes (k : Nat) : Between want zone (afterCalls ids ((changes env dnsType want zone).take k) zone) where
  kept r hr hw := by
    obtain ⟨grown, added, hgrown, -, hafter⟩ := records_after ids env dnsType want zone k
    rw [hafter, List.mem_filter, hgrown, decide_eq_true_eq]
    refine ⟨List.mem_append_left _ hr, fun hextra => ?_⟩
    obtain ⟨r', hr', heq⟩ := List.mem_map.1 hextra
    exact of_decide_eq_true (List.mem_filter.1 (List.mem_of_mem_take hr')).2 (heq ▸ hw)
  within r hr := by
    obtain ⟨grown, added, hgrown, hadded, hafter⟩ := records_after ids env dnsType want zone k
    rw [hafter, List.mem_filter, hgrown, List.mem_append] at hr
    refine hr.1.imp_right fun hnew => ?_
    have hmissing : r.content ∈ (missing zone want).take k := hadded ▸ List.mem_map_of_mem hnew
    exact List.mem_eraseDups.1 (List.mem_filter.1 (List.mem_of_mem_take hmissing)).1
  complete r hr hgone ip hip := by
    obtain ⟨grown, added, hgrown, -, hafter⟩ := records_after ids env dnsType want zone k
    have hset := contents_after ids env dnsType want zone k
    refine (Set.ext_iff.1 hset ip).2 ((differ want zone).complete k (List.mem_map_of_mem hr) (fun hin => hgone ?_) hip)
    obtain ⟨r', hr', heq⟩ := List.mem_map.1 ((Set.ext_iff.1 hset r.content).2 hin)
    have hgrown' : r' ∈ grown.records := by
      rw [hafter] at hr'
      exact (List.mem_filter.1 hr').1
    have hsame : r' = r := Zone.eq_of_content hgrown' (hgrown ▸ List.mem_append_left _ hr) heq
    exact hsame ▸ hr'
  served hwant hbefore := by
    obtain ⟨ip, hip⟩ := List.exists_mem_of_ne_nil want hwant
    obtain ⟨r, hr⟩ := List.exists_mem_of_ne_nil zone.records hbefore
    obtain ⟨c, hc⟩ := (differ want zone).nonempty k ⟨r.content, List.mem_map_of_mem hr⟩ ⟨ip, hip⟩
    obtain ⟨r', hr', -⟩ := List.mem_map.1 ((Set.ext_iff.1 (contents_after ids env dnsType want zone k) c).2 hc)
    exact List.ne_nil_of_mem hr'

/-- Wherever a run is cut off, the zone is what the first changes have made of it. -/
theorem cutOff_eq (n : Nat) : ∃ k, cutOff ids outcomes env dnsType want zone n =
    afterCalls ids ((changes env dnsType want zone).take k) zone := by
  unfold cutOff
  rw [syncFamily_eq]
  cases n with
  | zero => exact ⟨0, by rw [Prog.runFor_zero]; rfl⟩
  | succ n =>
    rw [Prog.runFor_call_succ]
    have hzone : (serveApi ids outcomes (.list dnsType env.name) ⟨zone, 0⟩).2 = ⟨zone, 1⟩ := by
      simp [serveApi, ApiCall.effect]
    have hreply : (serveApi ids outcomes (.list dnsType env.name) ⟨zone, 0⟩).1 = (outcomes 0).reply zone.records := rfl
    rw [hzone, hreply]
    cases outcomes 0 with
    | succeeds =>
      show ∃ k, ((loops env dnsType want zone.records).runFor (serveApi ids outcomes) n ⟨zone, 1⟩).zone = _
      rw [loops_eq]
      exact runFor_attempts ids outcomes _ n ⟨zone, 1⟩
    | fails done errors => exact ⟨0, by cases n <;> rfl⟩
    | throws done err => exact ⟨0, by cases n <;> rfl⟩

/-- One call for each difference. -/
theorem length_changes : (changes env dnsType want zone).length =
    (want.toFinset \ zone.contents.toFinset).card + (zone.contents.toFinset \ want.toFinset).card := by
  have hmissing : (missing zone want).toFinset = want.toFinset \ zone.contents.toFinset := by
    ext c
    rw [List.mem_toFinset, (differ want zone).missing c, Finset.mem_sdiff, List.mem_toFinset, List.mem_toFinset]
    rfl
  have hextra : ((extra zone want).map (·.content)).toFinset = zone.contents.toFinset \ want.toFinset := by
    ext c
    rw [List.mem_toFinset, (differ want zone).extra c, Finset.mem_sdiff, List.mem_toFinset, List.mem_toFinset]
    rfl
  have hnodup : (missing zone want).Nodup := (Table.nodup_eraseDups want).filter _
  have hnodup' : ((extra zone want).map (·.content)).Nodup := zone.contents_nodup.sublist (List.filter_sublist.map _)
  rw [← hmissing, ← hextra, List.toFinset_card_of_nodup hnodup, List.toFinset_card_of_nodup hnodup', changes, List.length_append]
  simp only [List.length_map]

/-- A run in which all calls succeed makes all changes. -/
theorem run_syncFamily (hall : ∀ i, outcomes i = .succeeds) :
    (syncFamily env dnsType want).run (serveApi ids outcomes) ⟨zone, 0⟩ =
      (.ok (), ⟨afterCalls ids (changes env dnsType want zone) zone, 1 + (changes env dnsType want zone).length⟩) := by
  rw [syncFamily_eq, Prog.run_call]
  have hzone : (serveApi ids outcomes (.list dnsType env.name) ⟨zone, 0⟩).2 = ⟨zone, 1⟩ := by
    simp [serveApi, ApiCall.effect]
  have hreply : (serveApi ids outcomes (.list dnsType env.name) ⟨zone, 0⟩).1 = CFReply.body true [] zone.records := by
    simp [serveApi, ApiCall.replyOf, hall, Outcome.reply]
  rw [hzone, hreply]
  show (loops env dnsType want zone.records).run (serveApi ids outcomes) ⟨zone, 1⟩ = _
  rw [loops_eq]
  exact run_attempts ids outcomes hall _ ⟨zone, 1⟩

/-- After all changes the contents are the wanted ones. -/
theorem contents_final (c : String) : c ∈ (afterCalls ids (changes env dnsType want zone) zone).contents ↔ c ∈ want := by
  have hset := contents_after ids env dnsType want zone (changes env dnsType want zone).length
  have hplan : (plan (missing zone want) ((extra zone want).map (·.content))).length ≤
      (changes env dnsType want zone).length := by
    simp [plan, changes]
  rw [List.take_length, List.take_of_length_le hplan, (differ want zone).reached] at hset
  exact Set.ext_iff.1 hset c

/-- Publishing is safe wherever it is cut off, and reaches what is wanted, with one call for each
difference, when all calls succeed. -/
theorem publish_safe :
    (∀ n, Between want zone (cutOff ids outcomes env dnsType want zone n)) ∧
    ((∀ i, outcomes i = .succeeds) → ∃ s, (syncFamily env dnsType want).run (serveApi ids outcomes) ⟨zone, 0⟩ = (.ok (), s) ∧
      (∀ c, c ∈ s.zone.contents ↔ c ∈ want) ∧
      s.calls = 1 + ((want.toFinset \ zone.contents.toFinset).card + (zone.contents.toFinset \ want.toFinset).card) ∧
      ((∀ c, c ∈ zone.contents ↔ c ∈ want) → s = ⟨zone, 1⟩)) := by
  constructor
  · intro n
    obtain ⟨k, hk⟩ := cutOff_eq ids outcomes env dnsType want zone n
    rw [hk]
    exact between_of_changes ids env dnsType want zone k
  · intro hall
    refine ⟨_, run_syncFamily ids outcomes env dnsType want zone hall,
      contents_final ids env dnsType want zone, ?_, fun hsame => ?_⟩
    · rw [length_changes]
    · have hsets : want.toFinset = zone.contents.toFinset :=
        Finset.ext fun c => by rw [List.mem_toFinset, List.mem_toFinset, hsame]
      have hnone : changes env dnsType want zone = [] := by
        rw [← List.length_eq_zero_iff, length_changes, hsets, Finset.sdiff_self, Finset.card_empty]
      rw [hnone]
      rfl

end

/-- An id longer than all others. -/
def IdSource.longer : IdSource where
  newId records := String.ofList (List.replicate ((records.map (·.id.length)).sum + 1) '0')
  fresh records h := by
    obtain ⟨r, hr, heq⟩ := List.mem_map.1 h
    have hlength : r.id.length = (records.map (·.id.length)).sum + 1 := by rw [heq, String.length_ofList, List.length_replicate]
    have hle : r.id.length ≤ (records.map (·.id.length)).sum :=
      List.single_le_sum (fun _ _ => Nat.zero_le _) _ (List.mem_map_of_mem hr)
    omega

/-- Two records, one wanted. -/
def twoRecords : Zone where
  records := [⟨"1", "8.8.8.8"⟩, ⟨"2", "1.1.1.1"⟩]
  contents_nodup := by decide
  ids_nodup := by decide

/-- The other is replaced in three calls. -/
theorem publish_safe_replaced :
    ∃ s, (syncFamily ⟨"gws.example.org", 300⟩ "A" ["8.8.4.4", "8.8.8.8"]).run (serveApi IdSource.longer fun _ => .succeeds)
      ⟨twoRecords, 0⟩ = (.ok (), s) ∧ s.calls = 3 := by
  have hsafe := publish_safe IdSource.longer (fun _ => .succeeds) ⟨"gws.example.org", 300⟩ "A" ["8.8.4.4", "8.8.8.8"] twoRecords
  obtain ⟨s, hrun, -, hcalls, -⟩ := hsafe.2 fun _ => rfl
  exact ⟨s, hrun, hcalls.trans (by decide)⟩

end Gwsdb.Web
