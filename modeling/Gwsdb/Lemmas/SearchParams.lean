import Gwsdb.Lib.Digits
import Gwsdb.Web.EdgeCache

/-!
# Search parameters

What `set` and `delete` leave of the values of every name.
-/

namespace Gwsdb.Web

namespace SearchParams

/-- The first of all values. -/
theorem get_eq_head? (params : SearchParams) (name : String) : params.get name = (params.getAll name).head? := by
  unfold get getAll
  rw [List.head?_map, List.head?_filter]

/-- A name with the same values has the same first value. -/
theorem get_of_getAll {params params' : SearchParams} {name : String} (h : params'.getAll name = params.getAll name) :
    params'.get name = params.get name := by
  rw [get_eq_head?, get_eq_head?, h]

/-! ## `delete` -/

/-- The name that is deleted has no value. -/
theorem get_delete_self (params : SearchParams) (name : String) : (params.delete name).get name = none := by
  unfold delete get
  rw [List.find?_eq_none.2]
  · rfl
  · intro p hp
    simpa using (List.mem_filter.1 hp).2

/-- Other names keep all their values. -/
theorem getAll_delete_ne (params : SearchParams) {name other : String} (h : other ≠ name) :
    (params.delete name).getAll other = params.getAll other := by
  unfold delete getAll
  rw [List.filter_filter]
  congr 1
  refine List.filter_congr fun p _ => ?_
  by_cases hp : p.1 = other
  · simp [hp, h]
  · simp [hp]

/-! ## `set` -/

/-- The name that is set has the value. -/
theorem get_set_self (params : SearchParams) (name value : String) : (params.set name value).get name = some value := by
  induction params with
  | nil => simp [set, get]
  | cons p params ih =>
    rw [set]
    split
    · simp [get]
    · rename_i hp
      rw [get, List.find?_cons_of_neg (by simpa using hp)]
      exact ih

/-- Other names keep all their values. -/
theorem getAll_set_ne (params : SearchParams) {name other : String} (value : String) (h : other ≠ name) :
    (params.set name value).getAll other = params.getAll other := by
  induction params with
  | nil => simp [set, getAll, h.symm]
  | cons p params ih =>
    rw [set]
    split
    · rename_i hp
      have hrest := getAll_delete_ne params h
      unfold delete getAll at hrest
      unfold getAll
      rw [List.filter_cons_of_neg (by simpa using h.symm), List.filter_cons_of_neg (by simpa [hp] using h.symm), hrest]
    · unfold getAll at ih ⊢
      rw [List.filter_cons, List.filter_cons]
      split
      · rw [List.map_cons, List.map_cons, ih]
      · exact ih

/-- So their first values stay. -/
theorem get_set_ne (params : SearchParams) {name other : String} (value : String) (h : other ≠ name) :
    (params.set name value).get other = params.get other := get_of_getAll (getAll_set_ne params value h)

end SearchParams

/-- Numbers with one text are one number. -/
theorem toString_injective {m n : Nat} (h : toString m = toString n) : m = n := by
  have hm : (toString m).toList = Nat.toDigits 10 m := String.toList_ofList
  have hn : (toString n).toList = Nat.toDigits 10 n := String.toList_ofList
  rw [← Digits.value_toDigits (b := 10) (by decide) (by decide) (n := m), ← hm, h, hn,
    Digits.value_toDigits (by decide) (by decide)]

/-- A version can be read off the parameters it was set in. -/
theorem version_of_set {params params' : SearchParams} {v v' : Nat}
    (h : params.set "v" (toString v) = params'.set "v" (toString v')) : v = v' := by
  have hget := congrArg (fun key => SearchParams.get key "v") h
  simp only [SearchParams.get_set_self, Option.some.injEq] at hget
  exact toString_injective hget

end Gwsdb.Web
