namespace Rebuild

/-- A map as its pairs, in the order in which the keys first came. -/
structure OrderedMap (α β : Type) where
  toList : List (α × β)
  deriving DecidableEq, Repr

namespace OrderedMap

variable {α β : Type}

def empty : OrderedMap α β :=
  ⟨[]⟩

instance : EmptyCollection (OrderedMap α β) := ⟨empty⟩

def keys (m : OrderedMap α β) : List α :=
  m.toList.map (·.1)

def values (m : OrderedMap α β) : List β :=
  m.toList.map (·.2)

@[simp] theorem keys_empty : (∅ : OrderedMap α β).keys = [] :=
  rfl

variable [BEq α]

def insertPair (key : α) (value : β) : List (α × β) → List (α × β)
  | [] => [(key, value)]
  | (k, v) :: pairs =>
    if k == key then (k, value) :: pairs else (k, v) :: insertPair key value pairs

def insert (m : OrderedMap α β) (key : α) (value : β) : OrderedMap α β :=
  ⟨insertPair key value m.toList⟩

/-- The map that the pairs give when inserted one after the other. -/
def ofList (pairs : List (α × β)) : OrderedMap α β :=
  pairs.foldl (fun m p => m.insert p.1 p.2) ∅

def get? (m : OrderedMap α β) (key : α) : Option β :=
  (m.toList.find? fun p => p.1 == key).map (·.2)

@[simp] theorem get?_empty (key : α) : (∅ : OrderedMap α β).get? key = none :=
  rfl

theorem mem_of_get? [LawfulBEq α] {m : OrderedMap α β} {key : α} {x : β}
    (h : m.get? key = some x) : (key, x) ∈ m.toList := by
  obtain ⟨⟨k, y⟩, hfound, rfl⟩ := Option.map_eq_some_iff.mp h
  have hkey := List.find?_some hfound
  simp only [beq_iff_eq] at hkey
  exact hkey ▸ List.mem_of_find?_eq_some hfound

theorem mem_values_of_get? [LawfulBEq α] {m : OrderedMap α β} {key : α} {x : β}
    (h : m.get? key = some x) : x ∈ m.values :=
  List.mem_map.mpr ⟨(key, x), mem_of_get? h, rfl⟩

theorem get?_eq_none_iff [LawfulBEq α] {m : OrderedMap α β} {key : α} :
    m.get? key = none ↔ key ∉ m.keys := by
  simp only [get?, Option.map_eq_none_iff, List.find?_eq_none, beq_iff_eq, keys, List.mem_map,
    not_exists, not_and]

theorem get?_of_mem [LawfulBEq α] {m : OrderedMap α β} {pair : α × β} (hkeys : m.keys.Nodup)
    (h : pair ∈ m.toList) : m.get? pair.1 = some pair.2 := by
  cases m with
  | mk pairs =>
    simp only [keys, get?] at hkeys h ⊢
    induction pairs with
    | nil => cases h
    | cons p pairs ih =>
      obtain ⟨hp, hkeys⟩ := List.nodup_cons.mp hkeys
      rcases List.mem_cons.mp h with rfl | h
      · simp
      · have hne : ¬ p.1 = pair.1 := fun heq => hp (List.mem_map.mpr ⟨pair, h, heq.symm⟩)
        simpa [List.find?_cons, hne] using ih hkeys h

theorem get?_insert [LawfulBEq α] (m : OrderedMap α β) (key : α) (value : β) (k : α) :
    (m.insert key value).get? k = if key == k then some value else m.get? k := by
  cases m with
  | mk pairs =>
    simp only [get?, insert]
    induction pairs with
    | nil => by_cases h : key == k <;> simp [insertPair, h]
    | cons p pairs ih =>
      rcases p with ⟨k', v'⟩
      simp only [insertPair]
      by_cases hk : k' == key
      · have := eq_of_beq hk
        subst this
        by_cases h : k' == k <;> simp [h]
      · by_cases hk' : k' == k
        · have := eq_of_beq hk'
          subst this
          have hne : ¬ key == k' := fun h => hk (by simp [eq_of_beq h])
          simp [hk, hne]
        · simp only [hk, Bool.false_eq_true, if_false, List.find?_cons, hk']
          simpa using ih

theorem keys_insert [LawfulBEq α] (m : OrderedMap α β) (key : α) (value : β) :
    (m.insert key value).keys = if key ∈ m.keys then m.keys else m.keys ++ [key] := by
  cases m with
  | mk pairs =>
    simp only [keys, insert]
    induction pairs with
    | nil => simp [insertPair]
    | cons p pairs ih =>
      rcases p with ⟨k', v'⟩
      simp only [insertPair]
      by_cases hk : k' == key
      · simp [eq_of_beq hk]
      · have hne : ¬ key = k' := fun h => hk (by simp [h])
        simp only [hk, Bool.false_eq_true, if_false, List.map_cons, ih, List.mem_cons, hne,
          false_or]
        split <;> simp_all

theorem nodup_keys_insert [LawfulBEq α] {m : OrderedMap α β} (key : α) (value : β)
    (h : m.keys.Nodup) : (m.insert key value).keys.Nodup := by
  rw [keys_insert]
  split
  · exact h
  · rename_i hkey
    rw [List.nodup_append]
    refine ⟨h, by simp, ?_⟩
    intro a ha b hb
    rw [List.mem_singleton] at hb
    rintro rfl
    exact hkey (hb ▸ ha)

theorem nodup_keys_ofList [LawfulBEq α] (pairs : List (α × β)) : (ofList pairs).keys.Nodup := by
  suffices ∀ m : OrderedMap α β, m.keys.Nodup →
      (pairs.foldl (fun m p => m.insert p.1 p.2) m).keys.Nodup from this ∅ (by simp)
  induction pairs with
  | nil => exact fun _ h => h
  | cons p pairs ih => exact fun m h => ih _ (nodup_keys_insert p.1 p.2 h)

theorem keys_ofList [LawfulBEq α] (pairs : List (α × β)) :
    (ofList pairs).keys = (pairs.map (·.1)).eraseDups := by
  suffices ∀ (m : OrderedMap α β) (seen : List α), m.keys = seen.eraseDups →
      (pairs.foldl (fun m p => m.insert p.1 p.2) m).keys =
        (seen ++ pairs.map (·.1)).eraseDups by
    simpa [ofList] using this ∅ [] rfl
  induction pairs with
  | nil => simp
  | cons p pairs ih =>
    intro m seen h
    have hinsert : (m.insert p.1 p.2).keys = (seen ++ [p.1]).eraseDups := by
      rw [keys_insert, h, List.eraseDups_append]
      by_cases hp : p.1 ∈ seen <;> simp [hp, List.removeAll, List.eraseDups_cons]
    rw [List.foldl_cons, ih _ _ hinsert, List.append_assoc]
    rfl

theorem insertPair_of_not_mem [LawfulBEq α] {key : α} (value : β) {pairs : List (α × β)}
    (h : key ∉ pairs.map (·.1)) : insertPair key value pairs = pairs ++ [(key, value)] := by
  induction pairs with
  | nil => rfl
  | cons p pairs ih =>
    rw [List.map_cons, List.mem_cons, not_or] at h
    have hne : ¬ p.1 = key := fun heq => h.1 heq.symm
    simp [insertPair, hne, ih h.2]

theorem ofList_toList [LawfulBEq α] {m : OrderedMap α β} (h : m.keys.Nodup) :
    ofList m.toList = m := by
  suffices ∀ pairs before : List (α × β), ((before ++ pairs).map (·.1)).Nodup →
      pairs.foldl (fun m p => m.insert p.1 p.2) (⟨before⟩ : OrderedMap α β) =
        ⟨before ++ pairs⟩ from this m.toList [] h
  intro pairs
  induction pairs with
  | nil => simp
  | cons p pairs ih =>
    intro before hkeys
    have hnew : p.1 ∉ before.map (·.1) := by
      rw [List.map_append, List.nodup_append] at hkeys
      exact fun hmem => hkeys.2.2 p.1 hmem p.1 (by simp) rfl
    rw [List.foldl_cons, insert, insertPair_of_not_mem p.2 hnew, ih _ (by simpa using hkeys)]
    simp

theorem get?_ofList [LawfulBEq α] (pairs : List (α × β)) (k : α) :
    (ofList pairs).get? k = (pairs.reverse.find? fun p => p.1 == k).map (·.2) := by
  suffices ∀ m : OrderedMap α β, (pairs.foldl (fun m p => m.insert p.1 p.2) m).get? k =
      ((pairs.reverse.find? fun p => p.1 == k).map (·.2)).or (m.get? k) by
    simpa [ofList] using this ∅
  induction pairs with
  | nil => simp
  | cons p pairs ih =>
    intro m
    rw [List.foldl_cons, ih, get?_insert, List.reverse_cons, List.find?_append]
    cases pairs.reverse.find? fun p => p.1 == k with
    | some q => simp
    | none =>
      by_cases h : p.1 == k <;> simp [h]

theorem mem_of_mem_ofList [LawfulBEq α] {pairs : List (α × β)} {pair : α × β}
    (h : pair ∈ (ofList pairs).toList) : pair ∈ pairs := by
  have hfound := get?_of_mem (nodup_keys_ofList pairs) h
  rw [get?_ofList] at hfound
  obtain ⟨p, hp, hvalue⟩ := Option.map_eq_some_iff.mp hfound
  have hkey : p.1 = pair.1 := by simpa using List.find?_some hp
  have hmem : p ∈ pairs.reverse := List.mem_of_find?_eq_some hp
  rwa [Prod.ext hkey hvalue, List.mem_reverse] at hmem

end OrderedMap

end Rebuild
