import Gwsdb.Web.Auth

/-!
# Requests with the token

The two endpoints of the scanner do what they are for exactly when a token is set and the header is `Bearer ` and that token,
character by character; to every other request they answer 401 without a statement (`endpoints_need_token`). So nothing passes
where the token is not set, or empty: a header that ends after `Bearer ` has lost its space.
-/

namespace Gwsdb.Auth

open Gwsdb.Web (handleIngest handleResult)

/-- The differences of the bytes are none together exactly when each is none. -/
theorem foldl_diff_eq_zero (ps : List (UInt8 × UInt8)) (diff : UInt8) :
    ps.foldl (fun diff p => diff ||| (p.1 ^^^ p.2)) diff = 0 ↔ diff = 0 ∧ ∀ p ∈ ps, p.1 = p.2 := by
  induction ps generalizing diff with
  | nil => simp
  | cons p ps ih =>
    rw [List.foldl_cons, ih, List.forall_mem_cons, UInt8.or_eq_zero_iff, UInt8.xor_eq_zero_iff, and_assoc]

/-- Two texts with one encoding are one text. -/
theorem encode_injective {a b : List Char} (h : encode a = encode b) : a = b := by
  have hbytes : (String.ofList a).toByteArray = (String.ofList b).toByteArray := by
    rw [String.toByteArray_ofList, String.toByteArray_ofList, List.utf8Encode, List.utf8Encode]
    exact congrArg List.toByteArray h
  have htext := String.toByteArray_inj.1 hbytes
  rw [← String.toList_ofList (l := a), htext, String.toList_ofList]

/-- Texts are equal exactly when all their bytes are. -/
theorem timingSafeEqual_iff (a b : List Char) : timingSafeEqual a b = true ↔ a = b := by
  unfold timingSafeEqual
  by_cases hlength : (encode a).length = (encode b).length
  · rw [if_neg (not_not.2 hlength), decide_eq_true_eq, foldl_diff_eq_zero]
    constructor
    · rintro ⟨-, hsame⟩
      refine encode_injective ?_
      calc encode a = ((encode a).zip (encode b)).map Prod.fst := (List.map_fst_zip hlength.le).symm
        _ = ((encode a).zip (encode b)).map Prod.snd := List.map_congr_left hsame
        _ = encode b := List.map_snd_zip hlength.ge
    · rintro rfl
      refine ⟨rfl, fun p hp => ?_⟩
      obtain ⟨i, hi, rfl⟩ := List.getElem_of_mem hp
      rw [List.getElem_zip]
  · rw [if_pos hlength]
    exact iff_of_false Bool.false_ne_true fun h => hlength (by rw [h])

/-- A request has the token that is set. -/
def HasToken (authorization : Option HeaderValue) (token : Option String) : Prop :=
  ∃ t value, token = some t ∧ t ≠ "" ∧ authorization = some value ∧ value.text = "Bearer ".toList ++ t.toList

/-- The check passes exactly for the token. -/
theorem checkBearerAuth_iff (authorization : Option HeaderValue) (token : Option String) :
    checkBearerAuth authorization token = true ↔ HasToken authorization token := by
  cases authorization with
  | none =>
    have hnone : checkBearerAuth none token = false := by
      unfold checkBearerAuth
      exact if_pos (by decide)
    rw [hnone]
    exact iff_of_false Bool.false_ne_true fun ⟨_, _, _, _, h, _⟩ => nomatch h
  | some value =>
    by_cases hpre : "Bearer ".toList.isPrefixOf value.text = true
    · obtain ⟨rest, hrest⟩ := List.isPrefixOf_iff_prefix.1 hpre
      show (if "Bearer ".toList.isPrefixOf value.text = false then false
        else timingSafeEqual (value.text.drop "Bearer ".toList.length) (token.getD "").toList) = true ↔ _
      rw [hpre, if_neg (by decide), timingSafeEqual_iff, ← hrest, List.drop_left]
      constructor
      · intro hsame
        have hne : rest ≠ [] := by
          rintro rfl
          have hlast := value.last ' ' (by rw [← hrest]; rfl)
          exact absurd hlast (by decide)
        cases token with
        | none => exact absurd hsame hne
        | some t =>
          refine ⟨t, value, rfl, ?_, rfl, by rw [← hrest, hsame]; rfl⟩
          rintro rfl
          exact hne hsame
      · rintro ⟨t, value', rfl, -, heq, htext⟩
        cases heq
        rw [← hrest] at htext
        exact List.append_cancel_left htext
    · have hfalse : "Bearer ".toList.isPrefixOf value.text = false := Bool.eq_false_iff.2 hpre
      show (if "Bearer ".toList.isPrefixOf value.text = false then false else _) = true ↔ _
      rw [if_pos hfalse]
      refine iff_of_false Bool.false_ne_true ?_
      rintro ⟨t, value', -, -, heq, htext⟩
      cases heq
      exact hpre (List.isPrefixOf_iff_prefix.2 ⟨_, htext.symm⟩)

/-- With the token a guarded endpoint is the endpoint. -/
theorem guarded_of_token {authorization : Option HeaderValue} {token : Option String} (h : HasToken authorization token)
    (endpoint : Gwsdb.Store.Program Gwsdb.Web.Response) : guarded authorization token endpoint = endpoint := by
  rw [guarded, (checkBearerAuth_iff authorization token).2 h]
  rfl

/-- Without it the answer is that the request is unauthorized. -/
theorem guarded_of_no_token {authorization : Option HeaderValue} {token : Option String} (h : ¬HasToken authorization token)
    (endpoint : Gwsdb.Store.Program Gwsdb.Web.Response) : guarded authorization token endpoint =
        .ret (.text 401 "unauthorized") := by
  rw [guarded, Bool.eq_false_iff.2 fun hcheck => h ((checkBearerAuth_iff authorization token).1 hcheck)]
  rfl

/-- With the token that is set, the endpoints do what they are for; to all other requests they answer 401, without a statement. -/
theorem endpoints_need_token (authorization : Option HeaderValue) (token : Option String) :
    (HasToken authorization token ∧
        (∀ insertAt poolAt body, onIngest authorization token insertAt poolAt body = handleIngest insertAt poolAt body) ∧
        ∀ body, onResult authorization token body = handleResult body) ∨
      (¬HasToken authorization token ∧
        (∀ insertAt poolAt body, onIngest authorization token insertAt poolAt body = .ret (.text 401 "unauthorized")) ∧
        ∀ body, onResult authorization token body = .ret (.text 401 "unauthorized")) := by
  by_cases h : HasToken authorization token
  · exact Or.inl ⟨h, fun _ _ _ => guarded_of_token h _, fun _ => guarded_of_token h _⟩
  · exact Or.inr ⟨h, fun _ _ _ => guarded_of_no_token h _, fun _ => guarded_of_no_token h _⟩

end Gwsdb.Auth
