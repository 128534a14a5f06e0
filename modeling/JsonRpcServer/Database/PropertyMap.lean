import JsonRpcServer.Database.Store

/-! # Properties as a Map

  `addProperty`, `deleteProperty` and `listProperties` are meant to make a
  `DatabaseObj` an insertion-ordered finite map from the names of the client
  to types. The map is laid over the property system of `QObject`:

  * a name is cut at its first NUL on the way (`extractParamStr`), after it
    was found to be non-empty;
  * the name `objectName` is declared, so `setProperty` with it writes the
    object name and adds nothing, and `addProperty` does not look at what it
    returns.

  ## Main results

  * `propertyMap_refines_iff`: a run of calls refines the map exactly when
    each of them either carries no NUL and does not name `objectName`, or is
    refused with and without the part behind the NUL.
-/

namespace DatabaseObj

open Bytes CString JsonRPCServer JsonRPCErrorCodes

/-! ### The abstract map -/

/-- The calls that work on the map. -/
inductive MapCall (P : Type) where
  | addProperty (junk : Int) (params : List (Bytes × P))
  | deleteProperty (params : List (Bytes × P))
  | listProperties

def MapCall.toCall {P : Type} : MapCall P → Call P
  | .addProperty junk params => .addProperty junk params
  | .deleteProperty params => .deleteProperty params
  | .listProperties => .listProperties

/-- What a client learns from a call. -/
inductive Reply where
  | done
  | refused
  | listing (text : Bytes)
  deriving DecidableEq, Repr

/-- The type of this name, if it is known and default-constructible. -/
def MetaTypes.defaultType (types : MetaTypes) (name : Bytes) : Option MetaType :=
  (types.fromName name).filter fun t => (types.defaultValue 0 t).isSome

/-- The listing of a map. -/
def listing (m : Table MetaType) : Bytes :=
  (m.map fun p => ascii "\x7bProperty <" ++ p.1 ++ ascii ">, type: <" ++ p.2.typeName ++
    ascii ">\x7d ").flatten

/-- The map an object stands for. -/
def Object.typeMap (o : Object) : Table MetaType := o.dynamic.map fun p => (p.1, p.2.metaType)

section spec

variable {P : Type} (types : MetaTypes) (api : VariantApi P)

/-- The text of a parameter, empty if it is missing. -/
def textOf (params : List (Bytes × P)) (key : Bytes) : Bytes :=
  ((params.lookup key).map api.toByteArray).getD []

/-- The name a call is about. -/
def MapCall.name : MapCall P → Option Bytes
  | .addProperty _ params | .deleteProperty params => some (textOf api params (ascii "name"))
  | .listProperties => none

/-- What the calls do to the map. -/
def spec (m : Table MetaType) : MapCall P → Table MetaType × Reply
  | .addProperty _ params =>
      let name := textOf api params (ascii "name")
      let type_str := textOf api params (ascii "type")
      if name = [] ∨ type_str = [] ∨ name ∈ m.dynamicPropertyNames then (m, .refused)
      else
        match types.defaultType type_str with
        | none => (m, .refused)
        | some t => (m ++ [(name, t)], .done)
  | .deleteProperty params =>
      let name := textOf api params (ascii "name")
      if name ∈ m.dynamicPropertyNames then (m.setProperty name none, .done) else (m, .refused)
  | .listProperties => (m, .listing (listing m))

/-- The reply that a client reads off the result of the code. -/
def MapCall.reply : MapCall P → Ret → Reply
  | .listProperties, ret => .listing ret.1
  | _, ret => if ret.2 = NoError then .done else .refused

/-- The code answers as the map does, ends in the map's next state, and
    changes nothing else. -/
def Behaves (o : Object) (c : MapCall P) : Prop :=
  ∃ o' ret, call types api o c.toCall = .returned o' ret ∧
    c.reply ret = (spec types api o.typeMap c).2 ∧ o'.typeMap = (spec types api o.typeMap c).1 ∧
    o'.objectName = o.objectName ∧ ∀ q, c.name api ≠ some q → o'.property q = o.property q

/-- The object and the map in lock step. -/
def Refines : Object → Table MetaType → List (MapCall P) → Prop
  | o, m, [] => o.typeMap = m
  | o, m, c :: cs => o.typeMap = m ∧ Behaves types api o c ∧
      ∀ o', step types api o c.toCall = some o' → Refines o' (spec types api m c).1 cs

/-- A new property of this name and type can be added to the map. -/
def Admits (m : Table MetaType) (name type_str : Bytes) : Prop :=
  name ∉ m.dynamicPropertyNames ∧ (types.defaultType type_str).isSome

/-- The texts of the call mean to the code what they mean to the client, or
    the call is refused either way. -/
def ReadsWhole (o : Object) : MapCall P → Prop
  | .addProperty _ params =>
      let name := textOf api params (ascii "name")
      let type_str := textOf api params (ascii "type")
      name = [] ∨ type_str = [] ∨ ((0 ∉ name ∧ 0 ∉ type_str) ∧ name ≠ ascii "objectName") ∨
        (¬ Admits types o.typeMap name type_str ∧
          ¬ Admits types o.typeMap (content name) (content type_str))
  | .deleteProperty params =>
      let name := textOf api params (ascii "name")
      (name ≠ [] ∧ 0 ∉ name) ∨ content name ∉ o.typeMap.dynamicPropertyNames
  | .listProperties => True

end spec

/-! ### What the code does -/

section code

variable {P : Type} {types : MetaTypes} {api : VariantApi P}

theorem names_typeMap (o : Object) :
    o.typeMap.dynamicPropertyNames = o.dynamic.dynamicPropertyNames := by
  unfold Object.typeMap Table.dynamicPropertyNames
  rw [List.map_map]
  rfl

/-- Parameters that are missing or empty are refused, the others are cut. -/
theorem extractParamStr_eq (params : List (Bytes × P)) (key : Bytes) :
    extractParamStr api params key =
      if textOf api params key = [] then none else some (content (textOf api params key)) := by
  unfold extractParamStr textOf
  cases params.lookup key with
  | none => rfl
  | some v => rfl

theorem metaType_of_defaultValue {junk : Int} {t : MetaType} {v : PropValue}
    (h : types.defaultValue junk t = some v) : v.metaType = t := by
  cases t with
  | other name =>
    unfold MetaTypes.defaultValue at h
    rw [Option.ite_none_right_eq_some] at h
    rw [← Option.some.inj h.2]
    rfl
  | _ =>
    rw [← Option.some.inj h]
    rfl

/-- The default value exists whatever memory it is built in. -/
theorem MetaTypes.isSome_defaultValue (types : MetaTypes) (junk : Int) (t : MetaType) :
    (types.defaultValue junk t).isSome = (types.defaultValue 0 t).isSome := by
  cases t <;> rfl

/-- A value for `addProperty` exists when there is a default type. -/
theorem bind_defaultValue (junk : Int) (type_str : Bytes) :
    ((types.fromName type_str).bind (types.defaultValue junk)).map PropValue.metaType =
      types.defaultType type_str := by
  unfold MetaTypes.defaultType
  cases types.fromName type_str with
  | none => rfl
  | some t =>
    show (types.defaultValue junk t).map PropValue.metaType = Option.filter _ (some t)
    have hsome := types.isSome_defaultValue junk t
    cases hv : types.defaultValue junk t with
    | none =>
      rw [hv] at hsome
      rw [Option.filter_some, if_neg (by rw [← hsome]; simp)]
      rfl
    | some v =>
      rw [hv] at hsome
      rw [Option.filter_some, if_pos (by rw [← hsome]; rfl), Option.map_some,
        metaType_of_defaultValue hv]

/-- A type name with a NUL is not the type name in front of the NUL. -/
theorem zero_not_mem_of_defaultType {type_str : Bytes} {t : MetaType}
    (h : types.defaultType type_str = some t)
    (hcut : types.defaultType (content type_str) = some t) : 0 ∉ type_str := by
  unfold MetaTypes.defaultType at h hcut
  rw [Option.filter_eq_some_iff] at h hcut
  replace h := h.1
  replace hcut := hcut.1
  unfold MetaTypes.fromName at h
  split_ifs at h with h₁ h₂ h₃ h₄
  · rcases h₁ with rfl | rfl <;> decide
  · rcases h₂ with rfl | rfl <;> decide
  · rcases h₃ with rfl | rfl <;> decide
  · -- both names are the name of the same type
    cases h
    unfold MetaTypes.fromName at hcut
    split_ifs at hcut
    · cases hcut
    · cases hcut
    · cases hcut
    rw [← MetaType.other.inj (Option.some.inj hcut)]
    exact zero_not_mem_content type_str

section addProperty

variable (junk : Int) {params : List (Bytes × P)} {o : Object} {name type_str : Bytes}
  (hname : textOf api params (ascii "name") = name)
  (htype : textOf api params (ascii "type") = type_str)

include hname htype

/-- What the map refuses. -/
theorem spec_addProperty_refused (m : Table MetaType)
    (h : name = [] ∨ type_str = [] ∨ ¬ Admits types m name type_str) :
    spec types api m (.addProperty junk params) = (m, .refused) := by
  unfold spec
  dsimp only
  rw [hname, htype]
  by_cases hold : name = [] ∨ type_str = [] ∨ name ∈ m.dynamicPropertyNames
  · rw [if_pos hold]
  · rw [if_neg hold]
    have hnone : types.defaultType type_str = none := by
      rw [← Option.not_isSome_iff_eq_none]
      intro hsome
      rcases h with h | h | h
      · exact hold (Or.inl h)
      · exact hold (Or.inr (Or.inl h))
      · exact h ⟨fun hmem => hold (Or.inr (Or.inr hmem)), hsome⟩
    rw [hnone]

/-- What the map adds. -/
theorem spec_addProperty_done {m : Table MetaType} (hne : name ≠ []) (hne' : type_str ≠ [])
    (h : Admits types m name type_str) : ∃ t, types.defaultType type_str = some t ∧
      spec types api m (.addProperty junk params) = (m ++ [(name, t)], .done) := by
  obtain ⟨t, ht⟩ := Option.isSome_iff_exists.mp h.2
  refine ⟨t, ht, ?_⟩
  unfold spec
  dsimp only
  rw [hname, htype, if_neg, ht]
  rintro (hn | hn | hn)
  · exact hne hn
  · exact hne' hn
  · exact h.1 hn

/-- What the code refuses. -/
theorem addProperty_refused
    (h : name = [] ∨ type_str = [] ∨
      ¬ Admits types o.typeMap (content name) (content type_str)) :
    addProperty types api junk params o = invalidParams o := by
  unfold addProperty
  rw [extractParamStr_eq, extractParamStr_eq, hname, htype]
  by_cases hn : name = []
  · rw [if_pos hn]
  rw [if_neg hn]
  dsimp only
  by_cases hmem : content name ∈ o.dynamic.dynamicPropertyNames
  · rw [if_pos hmem]
  rw [if_neg hmem]
  by_cases ht : type_str = []
  · rw [if_pos ht]
  rw [if_neg ht]
  dsimp only
  have hnone : (types.fromName (content type_str)).bind (types.defaultValue junk) = none := by
    rw [← Option.map_eq_none_iff (f := PropValue.metaType), bind_defaultValue,
      ← Option.not_isSome_iff_eq_none]
    intro hsome
    rcases h with h | h | h
    · exact hn h
    · exact ht h
    · exact h ⟨names_typeMap o ▸ hmem, hsome⟩
  rw [hnone]

/-- What the code takes for a new property. -/
theorem addProperty_done (hne : name ≠ []) (hne' : type_str ≠ [])
    (h : Admits types o.typeMap (content name) (content type_str)) :
    ∃ v t ret, types.defaultType (content type_str) = some t ∧ v.metaType = t ∧ ret.2 = NoError ∧
      addProperty types api junk params o =
        .returned (o.setProperty types (content name) (some v)).notifyRefresh ret := by
  obtain ⟨t, ht⟩ := Option.isSome_iff_exists.mp h.2
  have hvalue := ht
  rw [← bind_defaultValue junk, Option.map_eq_some_iff] at hvalue
  obtain ⟨v, hv, hvt⟩ := hvalue
  refine ⟨v, t, (ascii "Property <" ++ content name ++ ascii "> type <" ++ content type_str ++
    ascii "> added", NoError), ht, hvt, rfl, ?_⟩
  unfold addProperty
  rw [extractParamStr_eq, extractParamStr_eq, hname, htype, if_neg hne]
  dsimp only
  rw [if_neg (names_typeMap o ▸ h.1), if_neg hne']
  dsimp only
  rw [hv]

end addProperty

/-! ### One call -/

/-- What the names of an object are like. -/
structure NamesOk (o : Object) : Prop where
  zero : ∀ name ∈ o.dynamic.dynamicPropertyNames, 0 ∉ name
  objectName : ascii "objectName" ∉ o.dynamic.dynamicPropertyNames

/-- A refused call is refused by the map as well, and nothing changes. -/
theorem behaves_of_refused {o : Object} {c : MapCall P} {ret : Ret}
    (hcall : call types api o c.toCall = .returned o ret) (hreply : c.reply ret = .refused)
    (hspec : spec types api o.typeMap c = (o.typeMap, .refused)) : Behaves types api o c := by
  refine ⟨o, ret, hcall, ?_, ?_, rfl, fun _ _ => rfl⟩
  · rw [hspec]
    exact hreply
  · rw [hspec]

/-- A new row is the last one. -/
theorem dynamic_append {o : Object} {name : Bytes} (v : PropValue)
    (hobject : name ≠ ascii "objectName") (hmem : name ∉ o.typeMap.dynamicPropertyNames) :
    (o.setProperty types name (some v)).notifyRefresh.dynamic = o.dynamic ++ [(name, v)] := by
  rw [names_typeMap] at hmem
  unfold Object.setProperty Object.notifyRefresh
  rw [if_neg hobject]
  exact Table.setProperty_of_not_mem hmem v

theorem typeMap_append {o : Object} {name : Bytes} {v : PropValue}
    (hobject : name ≠ ascii "objectName") (hmem : name ∉ o.typeMap.dynamicPropertyNames) :
    (o.setProperty types name (some v)).notifyRefresh.typeMap =
      o.typeMap ++ [(name, v.metaType)] := by
  unfold Object.typeMap
  rw [dynamic_append v hobject hmem, List.map_append]
  rfl

/-- With the name `objectName` nothing is added. -/
theorem typeMap_objectName (o : Object) (v : PropValue) :
    (o.setProperty types (ascii "objectName") (some v)).notifyRefresh.typeMap = o.typeMap := by
  unfold Object.setProperty
  rw [if_pos rfl]
  cases v <;> rfl

theorem typeMap_setProperty_none {o : Object} {name : Bytes}
    (hobject : name ≠ ascii "objectName") :
    (o.setProperty types name none).notifyRefresh.typeMap = o.typeMap.setProperty name none := by
  unfold Object.setProperty Object.notifyRefresh Object.typeMap
  rw [if_neg hobject]
  show (o.dynamic.filter fun p => p.1 ≠ name).map (fun p => (p.1, p.2.metaType)) =
    (o.dynamic.map fun p => (p.1, p.2.metaType)).filter fun p => p.1 ≠ name
  rw [List.filter_map]
  rfl

/-- The other properties stay. -/
theorem property_setProperty_ne {o : Object} {name q : Bytes} (hq : q ≠ name)
    (value : Option PropValue) :
    (o.setProperty types name value).notifyRefresh.property q = o.property q := by
  unfold Object.notifyRefresh Object.property Object.setProperty
  by_cases hname : name = ascii "objectName"
  · rw [if_pos hname]
    cases value with
    | none => rfl
    | some v => cases v <;> rfl
  · rw [if_neg hname]
    dsimp only
    rw [Table.property_setProperty_ne o.dynamic hq value]

theorem objectName_setProperty {o : Object} {name : Bytes} (h : name ≠ ascii "objectName")
    (value : Option PropValue) :
    (o.setProperty types name value).notifyRefresh.objectName = o.objectName := by
  unfold Object.setProperty
  rw [if_neg h]
  rfl

theorem length_ne_append {α : Type} (xs : List α) (x : α) : xs ≠ xs ++ [x] := by
  intro h
  have hlen := congrArg List.length h
  rw [List.length_append, List.length_singleton] at hlen
  omega

section addProperty

variable (junk : Int) {params : List (Bytes × P)} {o : Object} {name type_str : Bytes}
  (hname : textOf api params (ascii "name") = name)
  (htype : textOf api params (ascii "type") = type_str) (hne : name ≠ []) (hne' : type_str ≠ [])

include hname htype hne hne'

/-- What is added under texts without a NUL is what the map adds. -/
theorem behaves_of_whole (hwhole : (0 ∉ name ∧ 0 ∉ type_str) ∧ name ≠ ascii "objectName")
    (hadmits : Admits types o.typeMap name type_str) :
    Behaves types api o (.addProperty junk params) := by
  obtain ⟨⟨hzero, hzero'⟩, hobject⟩ := hwhole
  have hcut : Admits types o.typeMap (content name) (content type_str) := by
    rw [content_of_zero_not_mem hzero, content_of_zero_not_mem hzero']
    exact hadmits
  obtain ⟨v, t, ret, ht, hvt, hret, hcall⟩ := addProperty_done junk hname htype hne hne' hcut
  rw [content_of_zero_not_mem hzero, content_of_zero_not_mem hzero'] at *
  obtain ⟨t', ht', hspec⟩ := spec_addProperty_done junk hname htype hne hne' hadmits
  cases ht.symm.trans ht'
  refine ⟨_, ret, hcall, ?_, ?_, objectName_setProperty hobject _, ?_⟩
  · rw [hspec]
    exact if_pos hret
  · rw [hspec, typeMap_append hobject hadmits.1, hvt]
  · intro q hq
    apply property_setProperty_ne
    rintro rfl
    exact hq (congrArg some hname)

/-- If the map adds what the code adds, then under texts without a NUL. -/
theorem whole_of_behaves (hcut : Admits types o.typeMap (content name) (content type_str))
    (h : Behaves types api o (.addProperty junk params)) :
    (0 ∉ name ∧ 0 ∉ type_str) ∧ name ≠ ascii "objectName" := by
  obtain ⟨v, t, ret, ht, hvt, hret, hcall⟩ := addProperty_done junk hname htype hne hne' hcut
  obtain ⟨o', ret', hcall', hreply, hmap, _⟩ := h
  cases hcall.symm.trans hcall'
  have hdone : (spec types api o.typeMap (.addProperty junk params)).2 = .done := by
    rw [← hreply]
    exact if_pos hret
  -- the map adds a row as well
  have hwhole : Admits types o.typeMap name type_str := by
    by_contra hwhole
    rw [spec_addProperty_refused junk hname htype _ (Or.inr (Or.inr hwhole))] at hdone
    cases hdone
  obtain ⟨t', ht', hspec⟩ := spec_addProperty_done junk hname htype hne hne' hwhole
  rw [hspec] at hmap
  have hobject : content name ≠ ascii "objectName" := by
    intro hobject
    rw [hobject, typeMap_objectName] at hmap
    exact length_ne_append _ _ hmap
  rw [typeMap_append hobject hcut.1, hvt] at hmap
  obtain ⟨hnn, htt⟩ := Prod.mk.inj (List.singleton_inj.mp (List.append_cancel_left hmap))
  have hzero : 0 ∉ name := hnn ▸ zero_not_mem_content name
  have hzero' : 0 ∉ type_str := zero_not_mem_of_defaultType ht' (htt ▸ ht)
  rw [content_of_zero_not_mem hzero] at hobject
  exact ⟨⟨hzero, hzero'⟩, hobject⟩

end addProperty

/-- `addProperty` behaves as the map exactly when its texts read whole. -/
theorem behaves_addProperty_iff (junk : Int) (params : List (Bytes × P)) (o : Object) :
    Behaves types api o (.addProperty junk params) ↔
      ReadsWhole types api o (.addProperty junk params) := by
  obtain ⟨name, hname⟩ : ∃ name, textOf api params (ascii "name") = name := ⟨_, rfl⟩
  obtain ⟨type_str, htype⟩ : ∃ t, textOf api params (ascii "type") = t := ⟨_, rfl⟩
  unfold ReadsWhole
  dsimp only
  rw [hname, htype]
  by_cases hempty : name = [] ∨ type_str = []
  · have hrefused : name = [] ∨ type_str = [] ∨
        ¬ Admits types o.typeMap (content name) (content type_str) := by
      rw [← or_assoc]
      exact Or.inl hempty
    have hspec : name = [] ∨ type_str = [] ∨ ¬ Admits types o.typeMap name type_str := by
      rw [← or_assoc]
      exact Or.inl hempty
    refine iff_of_true (behaves_of_refused (addProperty_refused junk hname htype hrefused) rfl
      (spec_addProperty_refused junk hname htype _ hspec)) ?_
    rw [← or_assoc]
    exact Or.inl hempty
  rw [not_or] at hempty
  obtain ⟨hne, hne'⟩ := hempty
  by_cases hcut : Admits types o.typeMap (content name) (content type_str)
  · -- the code adds a property
    constructor
    · intro h
      exact Or.inr (Or.inr (Or.inl (whole_of_behaves junk hname htype hne hne' hcut h)))
    · rintro (h | h | h | h)
      · exact absurd h hne
      · exact absurd h hne'
      · rw [content_of_zero_not_mem h.1.1, content_of_zero_not_mem h.1.2] at hcut
        exact behaves_of_whole junk hname htype hne hne' h hcut
      · exact absurd hcut h.2
  · -- the code refuses
    have hcall := addProperty_refused junk hname htype (Or.inr (Or.inr hcut))
    by_cases hwhole : Admits types o.typeMap name type_str
    · refine iff_of_false ?_ ?_
      · intro h'
        obtain ⟨o', ret', hcall', hreply, _⟩ := h'
        cases hcall.symm.trans hcall'
        obtain ⟨t', _, hspec⟩ := spec_addProperty_done junk hname htype hne hne' hwhole
        rw [hspec] at hreply
        cases hreply
      · rintro (h | h | h | h)
        · exact hne h
        · exact hne' h
        · rw [content_of_zero_not_mem h.1.1, content_of_zero_not_mem h.1.2] at hcut
          exact hcut hwhole
        · exact h.1 hwhole
    · exact iff_of_true (behaves_of_refused hcall rfl
        (spec_addProperty_refused junk hname htype _ (Or.inr (Or.inr hwhole))))
          (Or.inr (Or.inr (Or.inr ⟨hwhole, hcut⟩)))

/-- `deleteProperty` behaves as the map exactly when its name reads whole. -/
theorem behaves_deleteProperty_iff (params : List (Bytes × P)) {o : Object} (ho : NamesOk o) :
    Behaves types api o (.deleteProperty params) ↔
      ReadsWhole types api o (.deleteProperty params) := by
  obtain ⟨name, hname⟩ : ∃ name, textOf api params (ascii "name") = name := ⟨_, rfl⟩
  have hspec : spec types api o.typeMap (.deleteProperty params) =
      if name ∈ o.typeMap.dynamicPropertyNames then (o.typeMap.setProperty name none, .done)
      else (o.typeMap, .refused) := by
    rw [← hname]
    rfl
  have hcode : deleteProperty types api params o =
      if name = [] then invalidParams o
      else if content name ∈ o.typeMap.dynamicPropertyNames then
        .returned (o.setProperty types (content name) none).notifyRefresh
          (ascii "Property <" ++ content name ++ ascii "> deleted", NoError)
      else invalidParams o := by
    unfold deleteProperty
    rw [extractParamStr_eq, hname]
    by_cases hn : name = []
    · rw [if_pos hn, if_pos hn]
    · rw [if_neg hn, if_neg hn]
      simp only [names_typeMap]
  unfold ReadsWhole
  dsimp only
  rw [hname]
  by_cases hcut : content name ∈ o.typeMap.dynamicPropertyNames
  · by_cases hclean : name ≠ [] ∧ 0 ∉ name
    · -- the name is there, for both
      refine iff_of_true ?_ (Or.inl hclean)
      rw [content_of_zero_not_mem hclean.2] at hcut hcode
      rw [if_neg hclean.1, if_pos hcut] at hcode
      rw [if_pos hcut] at hspec
      have hobject : name ≠ ascii "objectName" := by
        rintro rfl
        exact ho.objectName (names_typeMap o ▸ hcut)
      refine ⟨_, _, hcode, ?_, ?_, objectName_setProperty hobject _, ?_⟩
      · rw [hspec]
        rfl
      · rw [hspec, typeMap_setProperty_none hobject]
      · intro q hq
        apply property_setProperty_ne
        rintro rfl
        exact hq (congrArg some hname)
    · refine iff_of_false ?_ (not_or.mpr ⟨hclean, fun h => h hcut⟩)
      intro h'
      obtain ⟨o', ret, hcall, hreply, _⟩ := h'
      by_cases hn : name = []
      · -- the map has an entry without a name, and the code refuses to remove it
        rw [if_pos hn] at hcode
        rw [hn, content_of_zero_not_mem List.not_mem_nil, ← hn] at hcut
        rw [if_pos hcut] at hspec
        rw [hspec] at hreply
        cases hcode.symm.trans hcall
        cases hreply
      · have hzero : 0 ∈ name := by
          by_contra hzero
          exact hclean ⟨hn, hzero⟩
        have hmem : name ∉ o.typeMap.dynamicPropertyNames := fun hmem =>
          ho.zero name (names_typeMap o ▸ hmem) hzero
        rw [if_neg hmem] at hspec
        rw [if_neg hn, if_pos hcut] at hcode
        rw [hspec] at hreply
        cases hcode.symm.trans hcall
        cases hreply
  · -- the code refuses
    refine iff_of_true ?_ (Or.inr hcut)
    have hmem : name ∉ o.typeMap.dynamicPropertyNames := by
      intro hmem
      rw [content_of_zero_not_mem (ho.zero name (names_typeMap o ▸ hmem))] at hcut
      exact hcut hmem
    rw [if_neg hcut, ite_self] at hcode
    rw [if_neg hmem] at hspec
    exact behaves_of_refused hcode rfl hspec

/-- `listProperties` always behaves as the map. -/
theorem behaves_listProperties (o : Object) :
    Behaves types api o (.listProperties : MapCall P) := by
  refine ⟨o, _, rfl, ?_, rfl, rfl, fun _ _ => rfl⟩
  show Reply.listing _ = .listing (listing o.typeMap)
  unfold listing Object.typeMap
  rw [List.map_map]
  rfl

theorem behaves_iff (c : MapCall P) {o : Object} (ho : NamesOk o) :
    Behaves types api o c ↔ ReadsWhole types api o c := by
  cases c with
  | addProperty junk params => exact behaves_addProperty_iff junk params o
  | deleteProperty params => exact behaves_deleteProperty_iff params ho
  | listProperties => exact iff_of_true (behaves_listProperties o) trivial

/-! ### Runs -/

/-- The step of a call on the map. -/
def mapStep (types : MetaTypes) (api : VariantApi P) (o : Object) (c : MapCall P) :
    Option Object :=
  step types api o c.toCall

theorem namesOk_setProperty {o : Object} {name : Bytes} (ho : NamesOk o) (hzero : 0 ∉ name)
    (value : Option PropValue) : NamesOk (o.setProperty types name value).notifyRefresh := by
  unfold Object.setProperty Object.notifyRefresh
  by_cases hobject : name = ascii "objectName"
  · rw [if_pos hobject]
    cases value with
    | none => exact ⟨ho.zero, ho.objectName⟩
    | some v => cases v <;> exact ⟨ho.zero, ho.objectName⟩
  · rw [if_neg hobject]
    have hnames : ∀ q ∈ (o.dynamic.setProperty name value).dynamicPropertyNames,
        q ∈ o.dynamic.dynamicPropertyNames ∨ q = name := by
      intro q hq
      by_contra hno
      rw [not_or] at hno
      refine Table.property_eq_none_iff.mp ?_ hq
      rw [Table.property_setProperty_ne o.dynamic hno.2, Table.property_eq_none_iff]
      exact hno.1
    refine ⟨fun q hq => ?_, fun hq => ?_⟩
    · rcases hnames q hq with hq | rfl
      · exact ho.zero q hq
      · exact hzero
    · rcases hnames _ hq with hq | hq
      · exact ho.objectName hq
      · exact hobject hq.symm

/-- No call gives an object a name it should not have. -/
theorem namesOk_step {o o' : Object} {c : MapCall P} (ho : NamesOk o)
    (h : mapStep types api o c = some o') : NamesOk o' := by
  unfold mapStep step at h
  cases c with
  | addProperty junk params =>
    by_cases hcut : textOf api params (ascii "name") = [] ∨ textOf api params (ascii "type") = [] ∨
        ¬ Admits types o.typeMap (content (textOf api params (ascii "name")))
          (content (textOf api params (ascii "type")))
    · have hcall : call types api o (MapCall.addProperty junk params).toCall = invalidParams o :=
        addProperty_refused junk rfl rfl hcut
      rw [hcall] at h
      exact Option.some.inj h ▸ ho
    · rw [not_or, not_or, not_not] at hcut
      obtain ⟨v, _, ret, _, _, _, hcall⟩ :=
        addProperty_done junk rfl rfl hcut.1 hcut.2.1 hcut.2.2
      have hcall' : call types api o (MapCall.addProperty junk params).toCall = _ := hcall
      rw [hcall'] at h
      rw [← Option.some.inj h]
      exact namesOk_setProperty ho (zero_not_mem_content _) _
  | deleteProperty params =>
    unfold call MapCall.toCall deleteProperty at h
    dsimp only at h
    rw [extractParamStr_eq] at h
    by_cases hn : textOf api params (ascii "name") = []
    · rw [if_pos hn] at h
      exact Option.some.inj h ▸ ho
    · rw [if_neg hn] at h
      dsimp only at h
      split at h
      · next o₁ ret heq =>
        cases h
        split at heq
        · cases heq
          exact namesOk_setProperty ho (zero_not_mem_content _) _
        · cases heq
          exact ho
      · cases h
  | listProperties => exact Option.some.inj h ▸ ho

/-- Lock step is good behaviour of every call. -/
theorem refines_iff_guarded : ∀ (calls : List (MapCall P)) (o : Object),
    Refines types api o o.typeMap calls ↔
      System.Guarded (mapStep types api) (Behaves types api) o calls := by
  intro calls
  induction calls with
  | nil => exact fun o => iff_of_true rfl trivial
  | cons c calls ih =>
    intro o
    unfold Refines System.Guarded
    rw [eq_self, true_and]
    refine and_congr_right fun hbehaves => forall_congr' fun o' => imp_congr_right fun hstep => ?_
    obtain ⟨o₁, ret, hcall, _, hmap, _⟩ := hbehaves
    have ho' : o₁ = o' :=
      Option.some.inj ((step_eq_some_iff.mpr ⟨ret, hcall⟩).symm.trans hstep)
    rw [← hmap, ho']
    exact ih o'

theorem refines_fresh_iff (name : Bytes) (calls : List (MapCall P)) :
    Refines types api (fresh name) [] calls ↔
      System.Guarded (mapStep types api) (ReadsWhole types api) (fresh name) calls := by
  have hfresh : NamesOk (fresh name) := ⟨fun _ h => absurd h List.not_mem_nil, List.not_mem_nil⟩
  rw [← System.guarded_congr NamesOk (fun _ _ _ => namesOk_step)
    (fun _ c ho => behaves_iff c ho) hfresh calls]
  exact refines_iff_guarded calls (fresh name)

/-- What has been added can be deleted, and the object is as before. -/
theorem deleteProperty_addProperty {junk : Int} {params : List (Bytes × P)} {o o₁ : Object}
    {ret : Ret} (hwhole : ReadsWhole types api o (.addProperty junk params))
    (hadd : addProperty types api junk params o = .returned o₁ ret) (hret : ret.2 = NoError) :
    ∃ o₂ ret₂, deleteProperty types api params o₁ = .returned o₂ ret₂ ∧ ret₂.2 = NoError ∧
      o₂.dynamic = o.dynamic ∧ o₂.objectName = o.objectName := by
  obtain ⟨name, hname⟩ : ∃ name, textOf api params (ascii "name") = name := ⟨_, rfl⟩
  obtain ⟨type_str, htype⟩ : ∃ t, textOf api params (ascii "type") = t := ⟨_, rfl⟩
  -- a call that is refused returns an error
  have haccepted : ¬ (name = [] ∨ type_str = [] ∨
      ¬ Admits types o.typeMap (content name) (content type_str)) := by
    intro hrefused
    cases (addProperty_refused junk hname htype hrefused).symm.trans hadd
    cases hret
  rw [not_or, not_or, not_not] at haccepted
  obtain ⟨hne, hne', hcut⟩ := haccepted
  obtain ⟨v, t, ret', _, _, _, hcall⟩ := addProperty_done junk hname htype hne hne' hcut
  cases hcall.symm.trans hadd
  unfold ReadsWhole at hwhole
  dsimp only at hwhole
  rw [hname, htype] at hwhole
  rcases hwhole with h | h | h | h
  · exact absurd h hne
  · exact absurd h hne'
  · obtain ⟨⟨hzero, _⟩, hobject⟩ := h
    rw [content_of_zero_not_mem hzero] at hcut ⊢
    have hmem : name ∉ o.dynamic.dynamicPropertyNames := names_typeMap o ▸ hcut.1
    have hthere :
        name ∈ (o.setProperty types name (some v)).notifyRefresh.dynamic.dynamicPropertyNames := by
      rw [dynamic_append v hobject hcut.1]
      unfold Table.dynamicPropertyNames
      rw [List.map_append]
      exact List.mem_append_right _ List.mem_cons_self
    unfold deleteProperty
    rw [extractParamStr_eq, hname, if_neg hne, content_of_zero_not_mem hzero]
    dsimp only
    rw [if_pos hthere]
    refine ⟨_, _, rfl, rfl, ?_, ?_⟩
    · unfold Object.setProperty Object.notifyRefresh
      rw [if_neg hobject, if_neg hobject]
      exact Table.setProperty_none_of_not_mem hmem v
    · unfold Object.setProperty Object.notifyRefresh
      rw [if_neg hobject, if_neg hobject]
  · exact absurd hcut h.2

/-- **Properties as a map**: a run of calls on a new object refines the map
    exactly when every call reads whole; and such an `addProperty` that
    succeeds is undone by a `deleteProperty`. -/
theorem propertyMap_refines_iff (types : MetaTypes) (api : VariantApi P) :
    (∀ name calls, Refines types api (fresh name) [] calls ↔
      System.Guarded (mapStep types api) (ReadsWhole types api) (fresh name) calls) ∧
    ∀ junk params o o₁ ret, ReadsWhole types api o (.addProperty junk params) →
      addProperty types api junk params o = .returned o₁ ret → ret.2 = NoError →
      ∃ o₂ ret₂, deleteProperty types api params o₁ = .returned o₂ ret₂ ∧ ret₂.2 = NoError ∧
        o₂.dynamic = o.dynamic ∧ o₂.objectName = o.objectName :=
  ⟨refines_fresh_iff, fun _ _ _ _ _ hwhole hadd hret => deleteProperty_addProperty hwhole hadd hret⟩

end code

/-! ### Fixed calls -/

/-- A request to add a property. -/
def addRequest (name type_str : Bytes) : List (Bytes × Bytes) :=
  [(ascii "name", name), (ascii "type", type_str)]

/-- A link is added and removed. -/
theorem propertyMap_refines_link :
    Refines withQString stringApi (fresh (ascii "Root")) []
        [.addProperty 0 (addRequest (ascii "Link") (ascii "HyperLink"))] ∧
      ∃ o₂ ret₂, deleteProperty withQString stringApi
          (addRequest (ascii "Link") (ascii "HyperLink"))
          ⟨ascii "Root", [(ascii "Link", .hyperLink [] [])], 1⟩ = .returned o₂ ret₂ ∧
        ret₂.2 = NoError ∧ o₂.dynamic = [] ∧ o₂.objectName = ascii "Root" := by
  have hmain := propertyMap_refines_iff withQString stringApi
  have hwhole : ReadsWhole withQString stringApi (fresh (ascii "Root"))
      (.addProperty 0 (addRequest (ascii "Link") (ascii "HyperLink"))) :=
    Or.inr (Or.inr (Or.inl (by decide)))
  constructor
  · exact (hmain.1 _ _).mpr ⟨hwhole, fun _ _ => trivial⟩
  · exact hmain.2 0 (addRequest (ascii "Link") (ascii "HyperLink")) (fresh (ascii "Root")) _
      (ascii "Property <Link> type <HyperLink> added", NoError) hwhole (by decide) rfl

/-- The client is told that a property `objectName` has been added. -/
theorem not_refines_objectName : ¬ ∀ (name : Bytes) (calls : List (MapCall Bytes)),
    Refines withQString stringApi (fresh name) [] calls := by
  intro hall
  obtain ⟨_, ⟨o', ret, hcall, _, hmap, _⟩, _⟩ := hall (ascii "Root")
    [.addProperty 0 (addRequest (ascii "objectName") (ascii "Text"))]
  cases hcall
  exact absurd hmap (by decide)

end DatabaseObj
