import Mathlib.Data.List.Nodup

/-! A dictionary as the list of its items in the order of insertion. -/

namespace Dict

variable {K V : Type} [DecidableEq K] {items : List (K × V)} {key : K} {item : V}

/-- `items[key] = item` -/
def setItem (items : List (K × V)) (key : K) (item : V) : List (K × V) :=
  match items with
  | [] => [(key, item)]
  | (first, old) :: rest =>
      if first = key then (first, item) :: rest else (first, old) :: setItem rest key item

/-- `dict(pairs)` -/
def ofPairs (pairs : List (K × V)) : List (K × V) :=
  pairs.foldl (fun items pair => setItem items pair.1 pair.2) []

/-- `items.get(key)` -/
def get (items : List (K × V)) (key : K) : Option V :=
  (items.find? fun pair => pair.1 = key).map Prod.snd

theorem setItem_of_not_mem (fresh : key ∉ items.map Prod.fst) :
    setItem items key item = items ++ [(key, item)] := by
  induction items with
  | nil => rfl
  | cons pair items ih =>
      rw [List.map_cons, List.mem_cons, not_or] at fresh
      rw [setItem, if_neg (Ne.symm fresh.1), ih fresh.2, List.cons_append]

theorem mem_setItem {pair : K × V} (member : pair ∈ setItem items key item) :
    pair = (key, item) ∨ pair ∈ items := by
  induction items with
  | nil => exact Or.inl (List.mem_singleton.mp member)
  | cons first items ih =>
      rw [setItem] at member
      split at member
      · rename_i same
        rcases List.mem_cons.mp member with rfl | rest
        · exact Or.inl (by rw [same])
        · exact Or.inr (List.mem_cons_of_mem _ rest)
      · rcases List.mem_cons.mp member with rfl | rest
        · exact Or.inr List.mem_cons_self
        · exact (ih rest).imp_right (List.mem_cons_of_mem _)

theorem ofPairs_of_nodup {pairs : List (K × V)} (distinct : (pairs.map Prod.fst).Nodup) :
    ofPairs pairs = pairs := by
  have grow : ∀ items : List (K × V), ((items ++ pairs).map Prod.fst).Nodup →
      pairs.foldl (fun items pair => setItem items pair.1 pair.2) items = items ++ pairs := by
    clear distinct
    induction pairs with
    | nil => simp
    | cons pair pairs ih =>
        intro items distinct
        have fresh : pair.1 ∉ items.map Prod.fst := by
          rw [List.map_append, List.map_cons] at distinct
          exact fun member => (List.nodup_append.mp distinct).2.2 _ member _ List.mem_cons_self rfl
        rw [List.foldl_cons, setItem_of_not_mem fresh, ih _ (by simpa using distinct)]
        simp
  exact grow [] distinct

theorem mem_ofPairs {pairs : List (K × V)} {pair : K × V} (member : pair ∈ ofPairs pairs) :
    pair ∈ pairs := by
  have grow : ∀ items : List (K × V),
      pair ∈ pairs.foldl (fun items pair => setItem items pair.1 pair.2) items →
        pair ∈ items ∨ pair ∈ pairs := by
    clear member
    induction pairs with
    | nil => exact fun items member => Or.inl member
    | cons first pairs ih =>
        intro items member
        rcases ih _ member with set_ | later
        · rcases mem_setItem set_ with rfl | old
          · exact Or.inr List.mem_cons_self
          · exact Or.inl old
        · exact Or.inr (List.mem_cons_of_mem _ later)
  exact (grow [] member).resolve_left List.not_mem_nil

theorem mem_of_get (found : get items key = some item) : (key, item) ∈ items := by
  obtain ⟨pair, hit, rfl⟩ := Option.map_eq_some_iff.mp found
  have same : pair.1 = key := by simpa using List.find?_some hit
  exact same ▸ List.mem_of_find?_eq_some hit

end Dict
