import CountedHeap.Engine.Tables

/-!
What a change of a payload changes. Storing, erasing and appending leave the
kind of a payload alone, its prototype and its cookie; and the bytes that a
payload is charged with move by exactly what the heap is told.
-/

namespace CountedHeap

/-! ### Kinds of payloads -/

/-- The payload without its properties or elements. -/
def Payload.bare : Payload → Payload
  | .plain proto _ => .plain proto []
  | .array proto _ => .array proto #[]
  | .function proto name _ => .function proto name []
  | .host proto _ cookie => .host proto [] cookie
  | p => p

/-- Whether objects of a class hold payloads of this kind. -/
def Payload.Fits (c : ObjectClass) : Payload → Prop
  | .plain .. => c = .object ∨ c = .global
  | .array .. => c = .array
  | .function .. => c = .function
  | .string _ => c = .string
  | .number _ => c = .number
  | .host .. => c = .host
  | .released => False

section

variable {p : Payload} {c : ObjectClass} {key : String} {v proto : Value}

theorem Payload.bare_setProperties (table : List Property) :
    (p.setProperties table).bare = p.bare := by
  cases p <;> rfl

theorem Payload.bare_store : (p.store key v).bare = p.bare := by
  cases p with
  | array proto items =>
      rw [Payload.store]
      split
      · rfl
      · split <;> rfl
  | _ => rfl

theorem Payload.bare_append : (p.append v).bare = p.bare := by
  cases p <;> rfl

theorem Payload.bare_eq_released : p.bare = .released ↔ p = .released := by
  cases p <;> simp [Payload.bare]

theorem Payload.fits_empty? (made : Payload.empty? c proto = some p) : p.Fits c := by
  cases c <;> simp only [Payload.empty?, Option.some.injEq, reduceCtorEq] at made <;>
    (subst made; simp [Payload.Fits])

theorem Payload.properties_empty? (made : Payload.empty? c proto = some p) : p.properties = [] := by
  cases c <;> simp only [Payload.empty?, Option.some.injEq, reduceCtorEq] at made <;>
    (subst made; rfl)

/-! ### Sizes of payloads -/

theorem findKey?_cons_of_ne {q : Property} (differ : q.key ≠ key) (table : List Property) :
    findKey? (q :: table) key = findKey? table key := by
  rw [findKey?, List.find?_cons_of_neg (by simpa using differ), findKey?]

theorem propertiesSize_cons (q : Property) (table : List Property) :
    propertiesSize (q :: table) = propertySize q.key + propertiesSize table := rfl

theorem propertiesSize_storeKey (table : List Property) :
    propertiesSize (storeKey key v table) =
      propertiesSize table + if (findKey? table key).isSome then 0 else propertySize key := by
  induction table with
  | nil => simp [storeKey, propertiesSize, findKey?]
  | cons q table ih =>
      by_cases here : q.key = key
      · simp [storeKey, here, propertiesSize_cons, findKey?]
      · have keep : storeKey key v (q :: table) = q :: storeKey key v table := by
          simp [storeKey, here]
        rw [keep, propertiesSize_cons, propertiesSize_cons, ih, findKey?_cons_of_ne here,
          Nat.add_assoc]

theorem propertiesSize_eraseKey {table : List Property} (found : (findKey? table key).isSome) :
    propertiesSize (eraseKey key table) + propertySize key = propertiesSize table := by
  induction table with
  | nil => simp [findKey?] at found
  | cons q table ih =>
      by_cases here : q.key = key
      · simp only [eraseKey, here, beq_self_eq_true, List.eraseP_cons_of_pos, propertiesSize_cons]
        exact Nat.add_comm _ _
      · have keep : eraseKey key (q :: table) = q :: eraseKey key table := by
          simp [eraseKey, here]
        rw [findKey?_cons_of_ne here] at found
        rw [keep, propertiesSize_cons, propertiesSize_cons, Nat.add_assoc, ih found]

/-- The bytes by which a payload grows when a value is stored. -/
def Placement.growth : Placement → Nat
  | .replaces _ => 0
  | .extends bytes => bytes

theorem Payload.growth_of_table {place : Placement} (hp : p.hasTable = true)
    (found : p.placement? key = some place) :
    place.growth = if (findKey? p.properties key).isSome then 0 else propertySize key := by
  rw [Payload.placement?_of_table hp, Option.some.injEq] at found
  rw [← found]
  cases findKey? p.properties key <;> rfl

theorem Payload.size_store_table {place : Placement} (hp : p.hasTable = true)
    (found : p.placement? key = some place) :
    (p.setProperties (storeKey key v p.properties)).size = p.size + place.growth := by
  rw [Payload.growth_of_table hp found]
  cases p <;> simp only [Payload.hasTable, Bool.false_eq_true] at hp <;>
    (simp only [Payload.setProperties, Payload.size, propertiesSize_storeKey, Nat.add_assoc]
     rfl)

/-- A store makes a payload larger by what its placement says. -/
theorem Payload.size_store {place : Placement} (found : p.placement? key = some place) :
    (p.store key v).size = p.size + place.growth := by
  cases p with
  | plain proto table => exact Payload.size_store_table rfl found
  | function proto name table => exact Payload.size_store_table rfl found
  | host proto table cookie => exact Payload.size_store_table rfl found
  | array proto items =>
      simp only [Payload.placement?] at found
      simp only [Payload.store]
      split at found
      · cases found
      · rename_i i index
        split at found
        · rename_i old item
          obtain ⟨inside, -⟩ := Array.getElem?_eq_some_iff.1 item
          rw [← Option.some.inj found, if_neg (Nat.ne_of_lt inside)]
          simp [Payload.size, Placement.growth]
        · split at found
          · rename_i next
            rw [← Option.some.inj found, if_pos next]
            simp only [Payload.size, Array.size_push, Placement.growth, elementSize]
            omega
          · cases found
  | string text => simp [Payload.placement?, Payload.hasTable] at found
  | number d => simp [Payload.placement?, Payload.hasTable] at found
  | released => simp [Payload.placement?, Payload.hasTable] at found

theorem Payload.size_erase {old : Value} (found : findKey? p.properties key = some old) :
    (p.setProperties (eraseKey key p.properties)).size + propertySize key = p.size := by
  have erased := propertiesSize_eraseKey (Option.isSome_of_eq_some found)
  cases p with
  | plain proto table => exact erased
  | host proto table cookie => exact erased
  | function proto name table =>
      simp only [Payload.setProperties, Payload.size, Payload.properties] at erased ⊢
      omega
  | _ => simp [Payload.properties, findKey?] at found

theorem Payload.size_append (array : p.isArray = true) :
    (p.append v).size = p.size + elementSize := by
  cases p <;> simp only [Payload.isArray, Bool.false_eq_true] at array
  simp only [Payload.append, Payload.size, Array.size_push, elementSize]
  omega

end

end CountedHeap
