import JsonRpcServer.Framework.Bytes

/-! # Dynamic Properties

  The dynamic properties of a `QObject`: a finite map from names to values
  that remembers the order in which the names were added.
-/

/-- Dynamic properties, oldest first. -/
abbrev Table (V : Type) := List (Bytes × V)

namespace Table

variable {V : Type}

/-- `dynamicPropertyNames`. -/
def dynamicPropertyNames (t : Table V) : List Bytes := t.map Prod.fst

instance (t : Table V) (name : Bytes) : Decidable (name ∈ t.dynamicPropertyNames) :=
  inferInstanceAs (Decidable (name ∈ t.map Prod.fst))

/-- `property`; `none` is the invalid `QVariant`. -/
def property (t : Table V) (name : Bytes) : Option V := t.lookup name

/-- `setProperty`: a valid value replaces the one of that name or is added
    at the end; the invalid value removes the name. -/
def setProperty (t : Table V) (name : Bytes) : Option V → Table V
  | some v =>
      if name ∈ t.dynamicPropertyNames then
        t.map fun p => if p.1 = name then (name, v) else p
      else t ++ [(name, v)]
  | none => t.filter fun p => p.1 ≠ name

/-! ### Reading -/

@[simp] theorem property_nil (name : Bytes) : property ([] : Table V) name = none := rfl

theorem property_cons (p : Bytes × V) (t : Table V) (name : Bytes) :
    property (p :: t) name = if name = p.1 then some p.2 else t.property name := by
  obtain ⟨key, v⟩ := p
  unfold property
  by_cases h : name = key
  · rw [if_pos h, h, List.lookup_cons_self]
  · have hbeq : (name == key) = false := by simpa using h
    rw [if_neg h, List.lookup_cons, hbeq]

theorem property_eq_none_iff {t : Table V} {name : Bytes} :
    t.property name = none ↔ name ∉ t.dynamicPropertyNames := by
  induction t with
  | nil => simp [dynamicPropertyNames]
  | cons p t ih =>
    rw [property_cons]
    by_cases h : name = p.1
    · rw [if_pos h]
      simp [dynamicPropertyNames, h]
    · rw [if_neg h, ih]
      simp [dynamicPropertyNames, h]

/-- With distinct names every row is found under its name. -/
theorem property_of_mem {t : Table V} (ht : t.dynamicPropertyNames.Nodup) {p : Bytes × V}
    (hp : p ∈ t) : t.property p.1 = some p.2 := by
  induction t with
  | nil => cases hp
  | cons q t ih =>
    have hnodup := List.nodup_cons.mp ht
    rw [property_cons]
    rcases List.mem_cons.mp hp with rfl | hp
    · rw [if_pos rfl]
    · have hmem : p.1 ∈ dynamicPropertyNames t := List.mem_map_of_mem hp
      have hne : p.1 ≠ q.1 := fun heq => hnodup.1 (heq ▸ hmem)
      rw [if_neg hne]
      exact ih hnodup.2 hp

/-! ### Writing -/

/-- A value that is there is replaced in its place. -/
theorem setProperty_of_mem {t : Table V} {name : Bytes} (h : name ∈ t.dynamicPropertyNames)
    (v : V) : t.setProperty name (some v) =
      t.map fun p => if p.1 = name then (name, v) else p := by
  unfold setProperty
  exact if_pos h

/-- A new value goes to the end. -/
theorem setProperty_of_not_mem {t : Table V} {name : Bytes} (h : name ∉ t.dynamicPropertyNames)
    (v : V) : t.setProperty name (some v) = t ++ [(name, v)] := by
  unfold setProperty
  exact if_neg h

theorem dynamicPropertyNames_setProperty_of_mem {t : Table V} {name : Bytes}
    (h : name ∈ t.dynamicPropertyNames) (v : V) :
    (t.setProperty name (some v)).dynamicPropertyNames = t.dynamicPropertyNames := by
  rw [setProperty_of_mem h]
  unfold dynamicPropertyNames
  rw [List.map_map]
  apply List.map_congr_left
  intro p _
  show (if p.1 = name then (name, v) else p).1 = p.1
  by_cases hp : p.1 = name
  · rw [if_pos hp, hp]
  · rw [if_neg hp]

theorem dynamicPropertyNames_setProperty_of_not_mem {t : Table V} {name : Bytes}
    (h : name ∉ t.dynamicPropertyNames) (v : V) :
    (t.setProperty name (some v)).dynamicPropertyNames = t.dynamicPropertyNames ++ [name] := by
  rw [setProperty_of_not_mem h]
  unfold dynamicPropertyNames
  rw [List.map_append]
  rfl

theorem dynamicPropertyNames_setProperty_none (t : Table V) (name : Bytes) :
    (t.setProperty name none).dynamicPropertyNames =
      t.dynamicPropertyNames.filter fun n => n ≠ name := by
  unfold dynamicPropertyNames
  rw [List.filter_map]
  rfl

theorem mem_dynamicPropertyNames_setProperty_some (t : Table V) (name n : Bytes) (v : V) :
    n ∈ (t.setProperty name (some v)).dynamicPropertyNames ↔
      n ∈ t.dynamicPropertyNames ∨ n = name := by
  by_cases h : name ∈ t.dynamicPropertyNames
  · rw [dynamicPropertyNames_setProperty_of_mem h]
    exact ⟨Or.inl, fun hn => hn.elim id fun heq => heq ▸ h⟩
  · rw [dynamicPropertyNames_setProperty_of_not_mem h, List.mem_append, List.mem_singleton]

theorem mem_dynamicPropertyNames_setProperty_none (t : Table V) (name n : Bytes) :
    n ∈ (t.setProperty name none).dynamicPropertyNames ↔
      n ∈ t.dynamicPropertyNames ∧ n ≠ name := by
  rw [dynamicPropertyNames_setProperty_none, List.mem_filter, decide_eq_true_iff]

/-- A name that is not in front is written or removed behind. -/
theorem setProperty_append {t u : Table V} {name : Bytes} (h : name ∉ t.dynamicPropertyNames)
    (value : Option V) : (t ++ u).setProperty name value = t ++ u.setProperty name value := by
  have hne : ∀ p ∈ t, p.1 ≠ name := fun p hp heq => h (heq ▸ List.mem_map_of_mem hp)
  cases value with
  | none =>
    show (t ++ u).filter (fun p => p.1 ≠ name) = t ++ u.filter fun p => p.1 ≠ name
    rw [List.filter_append, List.filter_eq_self.mpr fun p hp => decide_eq_true (hne p hp)]
  | some v =>
    have hmem : name ∈ dynamicPropertyNames (t ++ u) ↔ name ∈ u.dynamicPropertyNames := by
      unfold dynamicPropertyNames at h ⊢
      rw [List.map_append, List.mem_append]
      exact or_iff_right h
    by_cases hu : name ∈ u.dynamicPropertyNames
    · rw [setProperty_of_mem (hmem.mpr hu), setProperty_of_mem hu, List.map_append]
      have hkeep : t.map (fun p => if p.1 = name then (name, v) else p) = t.map id :=
        List.map_congr_left fun p hp => if_neg (hne p hp)
      rw [hkeep, List.map_id]
    · rw [setProperty_of_not_mem (mt hmem.mp hu), setProperty_of_not_mem hu, List.append_assoc]

/-- Writing and removing keep the names distinct. -/
theorem nodup_setProperty {t : Table V} (ht : t.dynamicPropertyNames.Nodup) (name : Bytes)
    (value : Option V) : (t.setProperty name value).dynamicPropertyNames.Nodup := by
  cases value with
  | none => exact (List.filter_sublist.map Prod.fst).nodup ht
  | some v =>
    by_cases h : name ∈ t.dynamicPropertyNames
    · rw [dynamicPropertyNames_setProperty_of_mem h]
      exact ht
    · rw [dynamicPropertyNames_setProperty_of_not_mem h, List.nodup_append]
      refine ⟨ht, by simp, ?_⟩
      intro a ha b hb heq
      rw [List.mem_singleton.mp hb] at heq
      exact h (heq ▸ ha)

theorem property_append (t u : Table V) (name : Bytes) :
    (t ++ u : Table V).property name = (t.property name).or (u.property name) :=
  List.lookup_append

/-- A value is read back. -/
theorem property_setProperty_self (t : Table V) (name : Bytes) (v : V) :
    (t.setProperty name (some v)).property name = some v := by
  by_cases h : name ∈ t.dynamicPropertyNames
  · rw [setProperty_of_mem h]
    induction t with
    | nil => cases h
    | cons p t ih =>
      rw [List.map_cons, property_cons]
      by_cases hp : p.1 = name
      · rw [if_pos hp, if_pos rfl]
      · have hmem : name ∈ dynamicPropertyNames t :=
          (List.mem_cons.mp h).resolve_left fun heq => hp heq.symm
        rw [if_neg hp, if_neg fun heq => hp heq.symm]
        exact ih hmem
  · rw [setProperty_of_not_mem h, property_append, property_eq_none_iff.mpr h, property_cons,
      if_pos rfl]
    rfl

/-- The other values stay. -/
theorem property_setProperty_ne (t : Table V) {name q : Bytes} (hq : q ≠ name)
    (value : Option V) : (t.setProperty name value).property q = t.property q := by
  cases value with
  | none =>
    show property (t.filter fun p => p.1 ≠ name) q = t.property q
    induction t with
    | nil => rfl
    | cons p t ih =>
      rw [List.filter_cons, property_cons p t]
      by_cases hp : p.1 = name
      · rw [if_neg (by simpa using hp), ih, if_neg fun heq => hq (heq.trans hp)]
      · rw [if_pos (by simpa using hp), property_cons, ih]
  | some v =>
    by_cases h : name ∈ t.dynamicPropertyNames
    · rw [setProperty_of_mem h]
      clear h
      induction t with
      | nil => rfl
      | cons p t ih =>
        rw [List.map_cons, property_cons, property_cons p t, ih]
        by_cases hp : p.1 = name
        · rw [if_pos hp, if_neg hq, if_neg fun heq => hq (heq.trans hp)]
        · rw [if_neg hp]
    · rw [setProperty_of_not_mem h, property_append, property_cons, if_neg hq, property_nil,
        Option.or_none]

/-- The last write counts. -/
theorem setProperty_setProperty (t : Table V) (name : Bytes) (v w : V) :
    (t.setProperty name (some v)).setProperty name (some w) = t.setProperty name (some w) := by
  by_cases h : name ∈ t.dynamicPropertyNames
  · have hmem : name ∈ (t.setProperty name (some v)).dynamicPropertyNames := by
      rw [dynamicPropertyNames_setProperty_of_mem h]
      exact h
    rw [setProperty_of_mem hmem, setProperty_of_mem h, setProperty_of_mem h, List.map_map]
    apply List.map_congr_left
    intro p _
    show (if (if p.1 = name then (name, v) else p).1 = name then (name, w)
      else if p.1 = name then (name, v) else p) = if p.1 = name then (name, w) else p
    by_cases hp : p.1 = name
    · rw [if_pos hp, if_pos rfl, if_pos hp]
    · rw [if_neg hp, if_neg hp]
  · have hmem : name ∈ (t.setProperty name (some v)).dynamicPropertyNames := by
      rw [dynamicPropertyNames_setProperty_of_not_mem h]
      exact List.mem_append_right _ List.mem_cons_self
    rw [setProperty_of_mem hmem, setProperty_of_not_mem h, setProperty_of_not_mem h,
      List.map_append, List.map_cons, List.map_nil, if_pos rfl]
    have hkeep : t.map (fun p => if p.1 = name then (name, w) else p) = t.map id := by
      apply List.map_congr_left
      intro p hp
      have hne : p.1 ≠ name := fun heq => h (heq ▸ List.mem_map_of_mem hp)
      rw [if_neg hne]
      rfl
    rw [hkeep, List.map_id]

/-- What has been added can be removed. -/
theorem setProperty_none_of_not_mem {t : Table V} {name : Bytes}
    (h : name ∉ t.dynamicPropertyNames) (v : V) :
    (t.setProperty name (some v)).setProperty name none = t := by
  rw [setProperty_of_not_mem h]
  show (t ++ [(name, v)]).filter (fun p => p.1 ≠ name) = t
  have hdrop : [(name, v)].filter (fun p => decide (p.1 ≠ name)) = [] := by simp
  rw [List.filter_append, hdrop, List.append_nil, List.filter_eq_self]
  intro p hp
  have hne : p.1 ≠ name := fun heq => h (heq ▸ List.mem_map_of_mem hp)
  simpa using hne

end Table
