import Gwsdb.Lib.Program
import Gwsdb.Lib.Table

/-!
# Publishing to DNS

`syncFamily`, `listRecords`, `createRecord` and `deleteRecord` of `src/publish.ts`, as a program of calls to the API. What
`topIPsForPublish` returned is an argument. What the API does with a call is decided by an outcome: it takes effect and says so,
or the caller gets an error, and it may have taken effect or not.
-/

namespace Gwsdb.Web

open Interleave (Prog Service)
open Keyed (Table)

/-! ## The API -/

/-- `DNSRecord`. -/
structure DNSRecord where
  id : String
  content : String
  deriving DecidableEq

/-- `CFError`. -/
structure CFError where
  code : Int
  message : String

/-- What a fetch gives: `CFResponse`, or an error thrown. -/
inductive CFReply (τ : Type) where
  | thrown (err : String)
  | body (success : Bool) (errors : List CFError) (result : τ)

/-- The variables of the environment: the name to publish, and its TTL as a number. -/
structure PublishEnv where
  name : String
  ttl : Int

/-- The requests to the API. -/
inductive ApiCall where
  | list (dnsType name : String)
  | create (dnsType name content : String) (ttl : Int) (proxied : Bool)
  | delete (id : String)

/-- What a request is answered with. -/
abbrev ApiReply : ApiCall → Type
  | .list _ _ => CFReply (List DNSRecord)
  | .create _ _ _ _ _ => CFReply Unit
  | .delete _ => CFReply Unit

/-- A program of requests. -/
abbrev ApiProgram (α : Type) := Prog ApiCall ApiReply String α

/-! ## The program -/

/-- `cfErr`. -/
def cfErr (op : String) : List CFError → String
  | [] => op ++ ": cloudflare reported failure with no error detail"
  | e :: _ => op ++ ": cloudflare error " ++ toString e.code ++ ": " ++ e.message

/-- The result of a response, or the error for it. -/
def CFReply.unwrap {τ : Type} (op : String) : CFReply τ → Except String τ
  | .thrown err => .error err
  | .body success errors result => if success then .ok result else .error (cfErr op errors)

/-- `listRecords`. -/
def listRecords (env : PublishEnv) (dnsType : String) : ApiProgram (List DNSRecord) := do
  let reply ← Prog.perform (.list dnsType env.name)
  Prog.ofExcept (CFReply.unwrap "list" reply)

/-- `createRecord`. -/
def createRecord (env : PublishEnv) (dnsType content : String) : ApiProgram Unit := do
  let reply ← Prog.perform (.create dnsType env.name content env.ttl false)
  Prog.ofExcept (CFReply.unwrap "create" reply)

/-- `deleteRecord`. -/
def deleteRecord (id : String) : ApiProgram Unit := do
  let reply ← Prog.perform (.delete id)
  Prog.ofExcept (CFReply.unwrap "delete" reply)

/-- `haveByContent`: of records with one content the last id. -/
def haveByContent (have' : List DNSRecord) : Table String String := have'.foldl (fun m r => m.put r.content r.id) Table.empty

/-- `syncFamily`, with the IPs that are wanted. -/
def syncFamily (env : PublishEnv) (dnsType : String) (want : List String) : ApiProgram Unit := do
  let have' ← listRecords env dnsType
  want.eraseDups.forM fun ip => if ((haveByContent have').get? ip).isNone then createRecord env dnsType ip else pure ()
  (haveByContent have').entries.forM fun (content, id) => if content ∉ want then deleteRecord id else pure ()

/-! ## The zone -/

/-- The records of the name and type, no two with the same content or id. -/
structure Zone where
  records : List DNSRecord
  contents_nodup : (records.map (·.content)).Nodup
  ids_nodup : (records.map (·.id)).Nodup

namespace Zone

/-- The contents of the records. -/
def contents (z : Zone) : List String := z.records.map (·.content)

/-- The zone with a record of a content under a new id, where it has none. -/
def create (z : Zone) (id content : String) (hid : id ∉ z.records.map (·.id)) : Zone :=
  if h : content ∈ z.contents then z
  else
    { records := z.records ++ [⟨id, content⟩]
      contents_nodup := by
        rw [List.map_append, List.map_singleton, ← List.concat_eq_append]
        exact z.contents_nodup.concat h
      ids_nodup := by
        rw [List.map_append, List.map_singleton, ← List.concat_eq_append]
        exact z.ids_nodup.concat hid }

/-- The zone without the record of an id. -/
def delete (z : Zone) (id : String) : Zone where
  records := z.records.filter (·.id ≠ id)
  contents_nodup := z.contents_nodup.sublist (List.filter_sublist.map _)
  ids_nodup := z.ids_nodup.sublist (List.filter_sublist.map _)

end Zone

/-- Where the API takes the ids of new records from: an id that no record has. -/
structure IdSource where
  newId : List DNSRecord → String
  fresh : ∀ records, newId records ∉ records.map (·.id)

/-- What a call does to the zone. -/
def ApiCall.effect (ids : IdSource) : ApiCall → Zone → Zone
  | .list _ _, z => z
  | .create _ _ content _ _, z => z.create (ids.newId z.records) content (ids.fresh z.records)
  | .delete id, z => z.delete id

/-- How a call goes: well, or with an error that the API reports or the fetch throws, the call done or not. -/
inductive Outcome where
  | succeeds
  | fails (done : Bool) (errors : List CFError)
  | throws (done : Bool) (err : String)

/-- The call takes effect. -/
def Outcome.done : Outcome → Bool
  | .succeeds => true
  | .fails done _ => done
  | .throws done _ => done

/-- The reply to a call with a result. -/
def Outcome.reply {τ : Type} (result : τ) : Outcome → CFReply τ
  | .succeeds => .body true [] result
  | .fails _ errors => .body false errors result
  | .throws _ err => .thrown err

/-- The zone, and the number of calls that were made. -/
structure Cloudflare where
  zone : Zone
  calls : Nat

/-- The reply of the API to a call. -/
def ApiCall.replyOf (z : Zone) (o : Outcome) : (e : ApiCall) → ApiReply e
  | .list _ _ => o.reply z.records
  | .create _ _ _ _ _ => o.reply ()
  | .delete _ => o.reply ()

/-- The API: the `i`-th call goes as the `i`-th outcome says. -/
def serveApi (ids : IdSource) (outcomes : Nat → Outcome) : Service ApiCall ApiReply Cloudflare := fun e s =>
  (e.replyOf s.zone (outcomes s.calls),
    { zone := if (outcomes s.calls).done then e.effect ids s.zone else s.zone
      calls := s.calls + 1 })

end Gwsdb.Web
