import Gwsdb.Recheck.Probe

/-!
# Probes on demand

The probe server (`internal/scan/probeserver.go`) and the Worker in front of it (`worker/src/index.ts`), as `/check`
reaches them: the Pages project calls the Worker, the Worker calls the server, and each asks for the token. What a request
meets on its way is an argument.
-/

namespace Gwsdb.Recheck

/-- A request to probe: its method, the header `X-Probe-Token`, and the `ip` of its body, none where the body is no JSON and
empty where it has no `ip`. -/
structure ProbeRequest where
  method : String
  token : Option String
  ip : Option String

/-- What a hop answers: a text with a status, none of them a success, or the result of a probe. -/
inductive ProbeReply where
  | text (status : Nat) (message : String)
  | result (r : Scan.Result)

/-- `PROBE_TOKEN` of the Pages project and of the Worker, and the token of the server. -/
structure ProbeTokens where
  pages : String
  worker : String
  server : String

/-- What a request meets: whether it comes to the Worker and to the server, what the probe meets there, and whether
the answer is back in time. -/
structure Journey where
  reachesWorker : Bool
  reachesServer : Bool
  meeting : Meeting
  returns : Bool

variable (w : Prober)

/-- The handler of `runProbeServer`; none where the ping panics, which ends the connection. -/
def runProbeServer (token : String) (m : Meeting) (q : ProbeRequest) : Option ProbeReply :=
  if q.method ≠ "POST" then some (.text 405 "method not allowed")
  else if q.token.getD "" ≠ token then some (.text 401 "unauthorized")
  else
    match q.ip with
    | none => some (.text 400 "bad request")
    | some ip => if ip = "" then some (.text 400 "missing ip") else (w.probeOnce ip m).map .result

variable (tokens : ProbeTokens)

/-- `fetch` of the Worker; none where it throws. -/
def workerFetch (j : Journey) (q : ProbeRequest) : Option ProbeReply :=
  if q.method ≠ "POST" then some (.text 405 "method not allowed")
  else if q.token ≠ some tokens.worker then some (.text 401 "unauthorized")
  else
    match q.ip with
    | none => none
    | some ip =>
      if ip = "" then some (.text 400 "missing ip")
      else if j.reachesServer then runProbeServer w tokens.server j.meeting ⟨"POST", some tokens.worker, some ip⟩
      else none

/-- `PROBE_PROXY.fetch` as `/check` calls it; none where it throws. -/
def probeProxy (ip : String) (j : Journey) : Option ProbeReply :=
  if j.reachesWorker then (workerFetch w tokens j ⟨"POST", some tokens.pages, some ip⟩).filter fun _ => j.returns else none

variable {w tokens}

/-- A result comes back only from a probe of the address asked for, with one token on all hops. -/
theorem probeProxy_result {ip : String} {j : Journey} {r : Scan.Result} (h : probeProxy w tokens ip j = some (.result r)) :
    tokens.pages = tokens.worker ∧ tokens.worker = tokens.server ∧ w.probeOnce ip j.meeting = some r := by
  unfold probeProxy at h
  split at h
  case isFalse => cases h
  obtain ⟨hworker, -⟩ := Option.filter_eq_some_iff.1 h
  simp only [workerFetch, ne_eq, not_true_eq_false, if_false] at hworker
  split at hworker
  case isTrue => cases hworker
  rename_i htoken
  split at hworker
  case isTrue => cases hworker
  rename_i hip
  split at hworker
  case isFalse => cases hworker
  simp only [runProbeServer, ne_eq, not_true_eq_false, if_false, hip, Option.getD_some] at hworker
  split at hworker
  case isTrue => cases hworker
  rename_i hserver
  obtain ⟨result, hprobe, heq⟩ := Option.map_eq_some_iff.1 hworker
  cases heq
  exact ⟨Option.some.inj (not_not.1 htoken), not_not.1 hserver, hprobe⟩

end Gwsdb.Recheck
